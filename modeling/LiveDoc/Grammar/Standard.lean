import LiveDoc.Grammar.Basic
import LiveDoc.Inline.Style
import LiveDoc.Text.Blank

/-!
# The standard grammar

The elements of documents, agents and batches of edit operations.
-/

set_option autoImplicit false
set_option relaxedAutoImplicit false

namespace LiveDoc.Grammar.Standard

def idPattern : String := "[A-Za-z0-9_][A-Za-z0-9_.:-]*"

def variablePattern : String := "[A-Za-z_][A-Za-z0-9_.-]*"

def notBlank (value : String) : Option String :=
  if Text.isAllBlank value then some "value must not be empty" else none

/-- Complains about a link target that is empty or holds blanks. -/
def linkTarget (value : String) : Option String :=
  if value.isEmpty || value.toList.any Text.isBlank then
    some ("'" ++ value ++ "' is not a valid link target")
  else none

def styleList (value : String) : Option String :=
  ((Text.words value).find? (!Style.known.contains ·)).map fun style =>
    "unknown style '" ++ style ++ "'"

def idList (value : String) : Option String :=
  if (Text.commaParts value).any String.isEmpty then
    some ("'" ++ value ++ "' is not a comma-separated id list")
  else none

def free (name : String) : AttributeSpec := { name }

def idRef (name : String) : AttributeSpec := { name, pattern := some idPattern }

def flag (name : String) : AttributeSpec := { name, values := some ["true", "false"] }

def checked (name : String) (check : String → Option String) : AttributeSpec :=
  { name, check := some check }

def needed (a : AttributeSpec) : AttributeSpec := { a with required := true }

def markers : List AttributeSpec := [idRef "afterBlockId", flag "atStart", flag "atEnd"]

def many (name : String) : Option Rule := some (.repeated (.ref name))

def richBlock (name : String) : Rule :=
  .terminal { name, kind := .block, content := .rich, attributes := [idRef "id"] } (many "inline")

def container (name : String) (inside : String) (attributes : List AttributeSpec) : Rule :=
  .terminal { name, kind := .block, attributes := idRef "id" :: attributes } (many inside)

/-- A piece of inline content that holds more of it. -/
def richInline (name : String) (attributes : List AttributeSpec) : Rule :=
  .terminal { name, kind := .inline, content := .rich, attributes } (many "inline")

/-- A piece of inline content without anything inside. -/
def atom (name : String) (attributes : List AttributeSpec) : Rule :=
  .terminal { name, kind := .inline, attributes } none

def call (name functionAttribute : String) : Rule :=
  .terminal
    { name, kind := .executable,
      attributes := [idRef "id", needed (free functionAttribute), flag "enabled"] }
    (some (.sequence [.optional (.ref "params"), .optional (.ref "content")]))

def root (name inside : String) (attributes : List AttributeSpec) : Rule :=
  .terminal { name, kind := .structural, attributes } (many inside)

def operation (name : String) (content : ContentModel) (attributes : List AttributeSpec)
    (children : Option Rule) : Rule :=
  .terminal { name, kind := .operation, content, attributes } children

def inlines : List Rule :=
  (["b", "strong", "i", "em", "u", "s", "del", "code"].map fun name => richInline name []) ++
    [richInline "span" [checked "styles" styleList],
      richInline "link" [needed (checked "href" linkTarget)],
      atom "variable" [needed { name := "name", pattern := some variablePattern }, free "prompt",
        free "value"],
      atom "mention" [needed (checked "id" notBlank), needed (checked "type" notBlank),
        needed (free "label")],
      richInline "annotation" [free "title", free "comment"]]

def operations : List Rule :=
  let block := needed (idRef "blockId")
  [operation "edit:attr" .none [block, needed (checked "name" notBlank), needed (free "value")]
      none,
    operation "edit:content" .rich [block] (many "inline"),
    operation "edit:params" .json [block] none,
    operation "edit:id" .none [block, needed (idRef "newId")] none,
    operation "insert" .none markers (many "block"),
    operation "delete" .none [block] none,
    operation "replace" .none [block] (many "block"),
    operation "move" .none
      (markers ++ [idRef "blockId", checked "blockIds" idList, idRef "fromBlockId",
        idRef "toBlockId"]) none]

def rules : Rules :=
  [("document", root "document" "block" [idRef "id"]),
    ("agent", root "agent" "block"
      [idRef "id", checked "name" notBlank, free "description", checked "model" notBlank]),
    ("diff", root "diff" "operation" [idRef "target"]),
    ("block", .choice (["paragraph", "heading", "quote", "code", "separator", "list", "definition",
      "executable"].map .ref)),
    ("paragraph", richBlock "p"),
    ("heading", .choice (["h1", "h2", "h3", "h4", "h5", "h6"].map richBlock)),
    ("quote", richBlock "blockquote"),
    ("code", .terminal
      { name := "pre", kind := .block, content := .text,
        attributes := [idRef "id", free "language"] } none),
    ("separator", .terminal { name := "hr", kind := .block, attributes := [idRef "id"] } none),
    ("list", .choice [container "ul" "list_item" [], container "ol" "list_item" []]),
    ("list_item", .terminal
      { name := "li", kind := .block, content := .rich, attributes := [idRef "id"] }
      (some (.repeated (.choice [.ref "inline", .ref "list", .ref "executable"])))),
    ("definition", .choice (["function", "tool"].map fun name =>
      container name "block" [needed (checked "name" notBlank), free "description"])),
    ("executable", .choice [call "fncall" "idyll-fn", call "trigger" "idyll-trigger"]),
    ("params", .terminal { name := "params", kind := .structural, content := .json } none),
    ("content", .terminal { name := "content", kind := .structural, content := .rich }
      (many "inline")),
    ("inline", .choice inlines),
    ("operation", .choice operations)]

def grammar : Grammar := ofRules rules

end LiveDoc.Grammar.Standard
