import LiveDoc.Text.Ranges

/-!
# Case

Which characters are the same but for their case: those that simple folding makes equal.
-/

set_option autoImplicit false
set_option relaxedAutoImplicit false

namespace LiveDoc.Text

namespace CaseFolding

/-- Characters at equal distances, each of which has its next case at the same offset. -/
structure Run where
  first : Nat
  count : Nat
  stride : Nat
  offset : Int

/-- The number that a packed offset stands for: an even one for half of itself, an odd one for half
of its successor below zero. -/
def offsetOf (n : Nat) : Int :=
  if n % 2 = 0 then n / 2 else -((n + 1) / 2 : Nat)

/-- The runs that numbers give, each with its distance from the run before. -/
def runs (before : Nat) : List Nat → List Run
  | gap :: count :: stride :: offset :: rest =>
    ⟨before + gap, count, stride, offsetOf offset⟩ :: runs (before + gap) rest
  | _ => []

def table : List Run :=
  runs 0 (Ranges.numbers 0 (String.toList ("X3Q1X2W1A1X1A11miQ182X1132X1611m9232X1X211WlTBN1X2" ++
    "O71X2711kv91G2X1122X1411mb1282X1I32X1611cP1O221O21WI322132168221821GN221N21WE11cO13221321" ++
    "511oA111hI111iH12221221311i911121111121i721121111211a3111i1111i311121111111i7111iB111b811" ++
    "1iJ111iF11121111111fG111XvmR111iJ111iN111dC111iP13221321511j211121111111j231121111111j211" ++
    "121111121j022221221311j41112111131121111211YJ52122113121221131212211318221821F11a21922192" ++
    "1I212211311121111111b7111YI1K221K21W811dB29221921N11rjE11121111111fF111rj8121rkN211211111" ++
    "11hH111ZE111ZI15221521911riL111riF111riJ111iG111i8221i6311i0211i2111XvX8411i6111XvX0211iA" ++
    "111XvYP111XuzN111XvWH211iE111iI111XvWH111rg3111XvWB311iI211rgF111iM311iO811rf2311j1211XvW" ++
    "F111j1411XuzR111j1111ZD121iU211ZH611j3B11XuyG111XuyAaC11aDWC222122151121111431dC411cF711X" ++
    "E231XC411Z4221Z23H1X2I11X0181X2811XD131XB422X1111WT222X1111Z4211X1111WJ111jxO111YF132X111" ++
    "1WnU211X1211WD111Y31112131X1311U121X1211koU121X1211Z3121Z1211G111YU111X8411Y0111YE111F1C2" ++
    "21C21N11aG111a4111E111cE111aS111b521121111111D11121111231dB3G1a5GW11X2W121X1211hyD172X111" ++
    "1hyB242X1811hxO211X1121hxK271X1711hx8151X15G1a4GH221111211hvM2F21W6R221R21WM11U17221721D1" ++
    "1T1WH221WH21Y3W71Y3WHW71Y2XzRW71kYKW811kYK611kYK3WC1bd2WE31bd2qOXI1XnwBXI61G861FXdE11iVE1" ++
    "11iVC111hzP111hzL1112111hzN111hz9111hvN111Xgh7111211116WC1bd1WE31bd1b211XglF411cy2H11XgoQ" ++
    "YLXD221WH21Y311YN2Q21WP11YO311kv82WH221WH21Y281G881F861G861F881G881F881G881F861G861F942G8" ++
    "42F781G881F821ZO241aH421bE221d8221c7221d4481G881F881G881F881G881F821G311I521F221ZN211H211" ++
    "ka7511I541aG411H421G821F221bD621G511E321F221c6211D711I521d7221d3211HeJ11kr0411mkR111md271" ++
    "1WPS11WOIG1W1GG1W0J1121111vCQ1WLQQ1WKWxBWH1Y3WHWH1Y2WH1121111111rg2111cy1111rf1111rjD111r" ++
    "j713221321511riE111rgE111riK111riI2112111121121111821rkM2WJ221WJ21YD222122161121111DW71kY" ++
    "JW811kYJ611kYJWWcQN221521A11Xgh82H21WKE221E21a67221721FW0221W021X82221221311XglE15221521C" ++
    "1121111111XuzM32221221311Y32A221A21J11XvWG111XvX7111XvWU111XvWA111XvWG211Xuy9111XuzQ111Xu" ++
    "yF111WxR18221821F11Y2111XvWE111XgoP12221221311XvYO111211113112111153221321511XvmQP1121111" ++
    "wO11WxQTXI1XnwAre4Q1X2W1Q1X1Wd6W91XIW9W91XHZCW51XIW9W51XHZSJ2XG152XGC72XGG32XG811XG2J2XF1" ++
    "52XFC72XFG32XF811XFWtRWK1Z4X2WK1Z3ZKM1X2W1M1X1XzCW11X2W1W11X1rt2W11X2W1W11X1WWpKW31X6W3W3" ++
    "1X5")))

def Run.has (run : Run) (code : Nat) : Bool :=
  run.first ≤ code && (code - run.first) % run.stride = 0 &&
    (code - run.first) / run.stride < run.count

/-- The next case of a character. The cases of a character come round in a circle. -/
def next (c : Char) : Char :=
  match table.find? (·.has c.toNat) with
  | some run => Char.ofNat ((c.toNat : Int) + run.offset).toNat
  | none => c

end CaseFolding

/-- A character in all its cases; there are at most four. -/
def casesOf (c : Char) : List Char :=
  let second := CaseFolding.next c
  let third := CaseFolding.next second
  [c, second, third, CaseFolding.next third]

def plainCasesOf (c : Char) : List Char :=
  if c.isUpper then [c, c.toLower] else if c.isLower then [c, c.toUpper] else [c]

end LiveDoc.Text
