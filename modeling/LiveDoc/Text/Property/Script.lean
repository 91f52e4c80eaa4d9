import LiveDoc.Text.Property.Basic

/-!
# Scripts

The scripts that characters belong to, and the scripts that they are used in besides.
-/

set_option autoImplicit false
set_option relaxedAutoImplicit false

namespace LiveDoc.Text

namespace Script

/-- The scripts. Every assigned character belongs to one of them. -/
def all : List Property :=
  [⟨["adlam", "adlm"], .unpack "Zbd7XE5A52"⟩,
    ⟨["ahom"], .unpack "Xhf1R3F5N"⟩,
    ⟨["anatolianhieroglyphs", "hluw"], .unpack "XteKnP"⟩,
    ⟨["arabic", "arab"], .unpack
      ("WnI5262E232W12ACQ2YF2W3XJWHcOW0226XD2TXXm2YMHgM3XI3WN81W2GYK52ZBZY3W0X63WP4WxhI42R2" ++
        "221312A24027151022322213104222134272424212A2H63252HWM2")⟩,
    ⟨["armenian", "armn"], .unpack "WgSW73WJ33XYhF5"⟩,
    ⟨["avestan", "avst"], .unpack "XeYTWN47"⟩,
    ⟨["balinese", "bali"], .unpack "cb0XF2WJ"⟩,
    ⟨["bamum", "bamu"], .unpack "Wih1XQWpi3nB"⟩,
    ⟨["bassavah", "bass"], .unpack "YYp5U36"⟩,
    ⟨["batak", "batk"], .unpack "ch6WL94"⟩,
    ⟨["bengali", "beng"], .unpack "XlF428323M2721443932349152253P"⟩,
    ⟨["bhaiksuki", "bhks"], .unpack "XipA92WE2EBT"⟩,
    ⟨["bopomofo", "bopo"], .unpack "t32hdMWCYKW1"⟩,
    ⟨["brahmi", "brah"], .unpack "Xfj7XG5W5A1"⟩,
    ⟨["braille", "brai"], .unpack "fpBd8"⟩,
    ⟨["buginese", "bugi"], .unpack "bxNS32"⟩,
    ⟨["buhid", "buhd"], .unpack "bb1K"⟩,
    ⟨["canadianaboriginal", "cans"], .unpack "af6pKn3X8XbpBG"⟩,
    ⟨["carian", "cari"], .unpack "XbwOWI"⟩,
    ⟨["caucasianalbanian", "aghb"], .unpack "XcmTWLC1"⟩,
    ⟨["chakma", "cakm"], .unpack "XfrFWM2I"⟩,
    ⟨["cham"], .unpack "WjdSWOAE3A34"⟩,
    ⟨["cherokee", "cher"], .unpack "ac3XO36WefLXI"⟩,
    ⟨["chorasmian", "chrs"], .unpack "XfgKS"⟩,
    ⟨["common", "zyyy"], .unpack
      ("1X3R6RWG2F25O1W11jGW8653KYO1A17121pI171F141W21a21lL1Z62We21i34eC1Wn13XA2bI221WdL1E1" ++
        "84262331tUC3XP2B4B2FIW2X2W723362R2HWB35qFNBMyTd9p83W12YClHY1i0L212PG854XU241XT2ZOGW" ++
        "2W7A1WIX2W1XJWH1XRaDbvLX2sr0W3YA3aBAcS1a61hO1F2qtM2bNANW42J24ZO12W1R6RBB1WF2X3727B5" ++
        "dB35WE49XJDWLWEcCRWnj24ZXRd27j2a2YNWUcTBW83X04H928U5WUbSKDKDXPAPZCXN2X9223132342C21" ++
        "272X32438272S242521472fU3eD3WJaiQX6XFWUrPWD5Y7DF3F2F2W6BaJWQQ22EWD5982F6a0WVN5H4D4Y" ++
        "Q5Y27C51GC5WP9A7W99U3C52X1fUDE3D4A6WP8F3B798ZN2Y9vii21W0Y3")⟩,
    ⟨["coptic", "copt", "qaac"], .unpack "WW3Efu0YN67"⟩,
    ⟨["cuneiform", "xsux"], .unpack "XjrByNYAYI25CbA"⟩,
    ⟨["cypriot", "cprt"], .unpack "Xdf56312WD224131"⟩,
    ⟨["cyprominoan", "cpmn"], .unpack "XnvRY6"⟩,
    ⟨["cyrillic", "cyrl"], .unpack "WX2Z93aEbbHBa61XF1ZgFW1WWW2Y3sf22WybBX0W31"⟩,
    ⟨["deseret", "dsrt"], .unpack "Xcd4XI"⟩,
    ⟨["devanagari", "deva"], .unpack "XhBXJ5F3QWgj5W1zgEA"⟩,
    ⟨["divesakuru", "diak"], .unpack "XhvH73138222U223CAA"⟩,
    ⟨["dogra", "dogr"], .unpack "Xhn9WT"⟩,
    ⟨["duployan", "dupl"], .unpack "YudJYE6D498A34"⟩,
    ⟨["egyptianhieroglyphs", "egyp"], .unpack "XnzFWZPBZZR"⟩,
    ⟨["elbasan", "elba"], .unpack "XclCW9"⟩,
    ⟨["elymaic", "elym"], .unpack "Xfi6N"⟩,
    ⟨["ethiopic", "ethi"], .unpack
      ("ZtLXB243721243WA243W2243721243F2WQ243X53W14QbwSNA727272727272727WXfC63636A727Xrg972" ++
        "4222F")⟩,
    ⟨["garay", "gara"], .unpack "XerGW74T92"⟩,
    ⟨["georgian", "geor"], .unpack "ZiAW721613WC24YXGWC33Zf7W72161"⟩,
    ⟨["glagolitic", "glag"], .unpack "grCY3YsWE72H372225"⟩,
    ⟨["gothic", "goth"], .unpack "XcWDR"⟩,
    ⟨["grantha", "gran"], .unpack "Xgd0428323M2722253932333171673745"⟩,
    ⟨["greek", "grek"], .unpack
      ("xD4233421512123212K2X1FGbqM5WK555XN1fBM363W73638032W03WM2F2E362J3329eH1WauK1rw0XHI1" ++
        "WtkOX8")⟩,
    ⟨["gujarati", "gujr"], .unpack "XtO329232M2722253A232331G43C87"⟩,
    ⟨["gunjalagondi", "gong"], .unpack "XjVL6222W622268A"⟩,
    ⟨["gurmukhi", "guru"], .unpack "XpK326523M27222222312552334184218H"⟩,
    ⟨["gurungkhema", "gukh"], .unpack "YWW4WR"⟩,
    ⟨["han", "hani"], .unpack
      "hh1Q2XRDbSWH121Q9F4WV4bvKX3qv5sr0gP3YDWVaF2D2WcgKWij2W2Zf07c53azRFct2Gp2XmImFWmJaZA6Zg7"⟩,
    ⟨["hangul", "hang"], .unpack "ZlDd8dW82dAY1YLW0X4W0WVpNTpOgoCDN5WIfmCW046363633"⟩,
    ⟨["hanifirohingya", "rohg"], .unpack "XepEW99A"⟩,
    ⟨["hanunoo", "hano"], .unpack "ba0L"⟩,
    ⟨["hatran", "hatr"], .unpack "XdmCJ2265"⟩,
    ⟨["hebrew", "hebr"], .unpack "Wk0WO9R56XYeHQ252122222A"⟩,
    ⟨["hiragana", "hira"], .unpack "hvGXO73YeZ0e8J1U3mc41"⟩,
    ⟨["imperialaramaic", "armi"], .unpack "Xdh7M29"⟩,
    ⟨["inherited", "zinh", "qaai"], .unpack
      ("tPYJdU2jJBR1sO4ZoBW0lI32D27517142bDX2lT2b9W2ZWN4YF2Wsr6GHEWVF1cA1Zg21WoVJWF3NmI3I83" ++
        "7W04vtyIcN")⟩,
    ⟨["inscriptionalpahlavi", "phli"], .unpack "Xec1J68"⟩,
    ⟨["inscriptionalparthian", "prti"], .unpack "Xeb0M38"⟩,
    ⟨["javanese", "java"], .unpack "WjZOXG3A52"⟩,
    ⟨["kaithi", "kthi"], .unpack "XfnBX5B1"⟩,
    ⟨["kannada", "knda"], .unpack "Yf8D232N2A253923248272243A23"⟩,
    ⟨["katakana", "kana"], .unpack "hyJXS33cOGbNWG2XQWsg4A2WEWkz34272221e93WK1F4"⟩,
    ⟨["kawi"], .unpack "Xjj3H2WA4T"⟩,
    ⟨["kayahli", "kali"], .unpack "WjVKWF21"⟩,
    ⟨["kharoshthi", "khar"], .unpack "XdvL42268232T335A89"⟩,
    ⟨["khitansmallscript", "kits"], .unpack "YaV31cbRk5WB1"⟩,
    ⟨["khmer", "khmr"], .unpack "bd3Y13A7AkMW1"⟩,
    ⟨["khojki", "khoj"], .unpack "XfzNI2WG"⟩,
    ⟨["khudawadi", "sind"], .unpack "XgaDWS6A"⟩,
    ⟨["kiratrai", "krai"], .unpack "YZe9WR"⟩,
    ⟨["lao", "laoo"], .unpack "YvP221252O212N3521272A34"⟩,
    ⟨["latin", "latn"], .unpack
      ("X4Q7QWH1G16N2W02jFW95byJW77WI646D2X8X4d8gT1E1HDZI271S1IWAXwHW1WWpNY94X5322128MEvBWC" ++
        "2924qb87WXSQ7QXa962WB29WvfNW076")⟩,
    ⟨["lepcha", "lepc"], .unpack "cj8WP4F43"⟩,
    ⟨["limbu", "limb"], .unpack "bpFW02C5C514C"⟩,
    ⟨["lineara", "lina"], .unpack "XctKf1AMB8"⟩,
    ⟨["linearb", "linb"], .unpack "Xbb3C2Q2J222F3EW4YU"⟩,
    ⟨["lisu"], .unpack "Whx2WHWWq61"⟩,
    ⟨["lycian", "lyci"], .unpack "XbvNT"⟩,
    ⟨["lydian", "lydi"], .unpack "XdoEQ61"⟩,
    ⟨["mahajani", "mahj"], .unpack "Xfu2W8"⟩,
    ⟨["makasar", "maka"], .unpack "Xji2P"⟩,
    ⟨["malayalam", "mlym"], .unpack "YjCD232WK23265G3Q"⟩,
    ⟨["mandaic", "mand"], .unpack "Xb5S31"⟩,
    ⟨["manichaean", "mani"], .unpack "XeWRW85C"⟩,
    ⟨["marchen", "marc"], .unpack "XisTW13M2E"⟩,
    ⟨["masaramgondi", "gonm"], .unpack "XixI7222WD4122299A"⟩,
    ⟨["medefaidrin", "medf"], .unpack "YZmHXT"⟩,
    ⟨["meeteimayek", "mtei"], .unpack "Wjl4NbGWF3A"⟩,
    ⟨["mendekikakui", "mend"], .unpack "ZazUbB3G"⟩,
    ⟨["meroiticcursive", "merc"], .unpack "XdsIO5K3WF"⟩,
    ⟨["meroitichieroglyphs", "mero"], .unpack "XdrHW1"⟩,
    ⟨["miao", "plrd"], .unpack "YZsNXD5WQ8H"⟩,
    ⟨["modi"], .unpack "XhWOX7CA"⟩,
    ⟨["mongolian", "mong"], .unpack "bh72312K7XR8WCXan5D"⟩,
    ⟨["mro", "mroo"], .unpack "YYkGW02A52"⟩,
    ⟨["multani", "mult"], .unpack "XgYR721242F2B"⟩,
    ⟨["myanmar", "mymr"], .unpack "Zd5a5WeuIW0Y5W1xvFK"⟩,
    ⟨["nabataean", "nbat"], .unpack "Xdj9W099"⟩,
    ⟨["nagmundari", "nagm"], .unpack "ZaZKWB"⟩,
    ⟨["nandinagari", "nand"], .unpack "XiVM83WF3B"⟩,
    ⟨["newtailue", "talu"], .unpack "btJWD5Q7B42"⟩,
    ⟨["newa"], .unpack "Xgl8XU25"⟩,
    ⟨["nko", "nkoo"], .unpack "XX1WS33"⟩,
    ⟨["nushu", "nshu"], .unpack "YaV01mjChO"⟩,
    ⟨["nyiakengpuachuehmong", "hmnp"], .unpack "ZZZ5WE4E3A52"⟩,
    ⟨["ogham", "ogam"], .unpack "azQT"⟩,
    ⟨["olchiki", "olck"], .unpack "clQWH"⟩,
    ⟨["olonal", "onao"], .unpack "ZahSWC51"⟩,
    ⟨["oldhungarian", "hung"], .unpack "XelAWKEWK86"⟩,
    ⟨["olditalic", "ital"], .unpack "XbzRW5A3"⟩,
    ⟨["oldnortharabian", "narb"], .unpack "XdzPW1"⟩,
    ⟨["oldpermic", "perm"], .unpack "XcXEWC"⟩,
    ⟨["oldpersian", "xpeo"], .unpack "Xca1W55E"⟩,
    ⟨["oldsogdian", "sogo"], .unpack "XfaUW9"⟩,
    ⟨["oldsoutharabian", "sarb"], .unpack "XdyOW1"⟩,
    ⟨["oldturkic", "orkh"], .unpack "Xeh6XB"⟩,
    ⟨["olduyghur", "ougr"], .unpack "XfeIQ"⟩,
    ⟨["oriya", "orya"], .unpack "XxS328323M2722253932338352253I"⟩,
    ⟨["osage", "osge"], .unpack "XciPW55W5"⟩,
    ⟨["osmanya", "osma"], .unpack "Xch8U3A"⟩,
    ⟨["pahawhhmong", "hmng"], .unpack "YYqMX8BA272L6J"⟩,
    ⟨["palmyrene", "palm"], .unpack "Xdi8W1"⟩,
    ⟨["paucinhau", "pauc"], .unpack "Xif0WQ"⟩,
    ⟨["phagspa", "phag"], .unpack "WiuEWP"⟩,
    ⟨["phoenician", "phnx"], .unpack "XdnDS41"⟩,
    ⟨["psalterpahlavi", "phlp"], .unpack "Xed2I84D7"⟩,
    ⟨["rejang", "rjng"], .unpack "WjX6W5C1"⟩,
    ⟨["runic", "runr"], .unpack "bVRXD4B"⟩,
    ⟨["samaritan", "samr"], .unpack "XZ3WF3F"⟩,
    ⟨["saurashtra", "saur"], .unpack "WiwGX89C"⟩,
    ⟨["sharada", "shrd"], .unpack "XfvJY3"⟩,
    ⟨["shavian", "shaw"], .unpack "XcfMWH"⟩,
    ⟨["siddham", "sidd"], .unpack "XgxKWN3W7"⟩,
    ⟨["signwriting", "sgnw"], .unpack "ZWrQq1G52F"⟩,
    ⟨["sinhala", "sinh"], .unpack "YnH32I4O292137415621287A33XccFK"⟩,
    ⟨["sogdian", "sogd"], .unpack "XfcGWB"⟩,
    ⟨["sorasompeng", "sora"], .unpack "XfpTP8A"⟩,
    ⟨["soyombo", "soyo"], .unpack "XibCXL"⟩,
    ⟨["sundanese", "sund"], .unpack "cf4X2d98"⟩,
    ⟨["sunuwar", "sunu"], .unpack "Xin8W3FA"⟩,
    ⟨["sylotinagri", "sylo"], .unpack "WisCWE"⟩,
    ⟨["syriac", "syrc"], .unpack "WvQE2WT33dPB"⟩,
    ⟨["tagalog", "tglg"], .unpack "bYUMA1"⟩,
    ⟨["tagbanwa", "tagb"], .unpack "bc2D2322"⟩,
    ⟨["taile", "tale"], .unpack "bs2U35"⟩,
    ⟨["taitham", "lana"], .unpack "byOX12T3B7A7E"⟩,
    ⟨["taiviet", "tavt"], .unpack "Wji1X5P5"⟩,
    ⟨["takri", "takr"], .unpack "XhaSWR7A"⟩,
    ⟨["tamil", "taml"], .unpack "YX2226432442212242434C5543243171FLXgjBWJE1"⟩,
    ⟨["tangsa", "tnsa"], .unpack "YYm2XH2A"⟩,
    ⟨["tangut", "tang"], .unpack "YZzU1W1bgT9tOlH9"⟩,
    ⟨["telugu", "telu"], .unpack "Yb4D232N2G392324822331343A89"⟩,
    ⟨["thaana", "thaa"], .unpack "WzUWJ"⟩,
    ⟨["thai"], .unpack "YrLWR6S"⟩,
    ⟨["tibetan", "tibt"], .unpack "YzSXA2W55W82W52F2752"⟩,
    ⟨["tifinagh", "tfng"], .unpack "hW6WP82F1"⟩,
    ⟨["tirhuta", "tirh"], .unpack "XgpCXA9A"⟩,
    ⟨["todhri", "todr"], .unpack "XcrIWL"⟩,
    ⟨["toto"], .unpack "ZZm2W0"⟩,
    ⟨["tulutigalari", "tutg"], .unpack "Xgh4A21312W72A2131242A2292"⟩,
    ⟨["ugaritic", "ugar"], .unpack "XcZ0U21"⟩,
    ⟨["vai", "vaii"], .unpack "WhyJeL"⟩,
    ⟨["vithkuqi", "vith"], .unpack "Xcp0B2F27222B2F2722"⟩,
    ⟨["wancho", "wcho"], .unpack "ZZnJWR61"⟩,
    ⟨["warangciti", "wara"], .unpack "XhsEXLD1"⟩,
    ⟨["yezidi", "yezi"], .unpack "XfWQWB2332"⟩,
    ⟨["yi", "yiii"], .unpack "WgoAWbI4WO"⟩,
    ⟨["zanabazarsquare", "zanb"], .unpack "XiYPXA"⟩]

/-- The characters used in a script, where they are not just those that belong to it. -/
def extended : List Property :=
  [⟨["adlam", "adlm"], .unpack "WoI1W21by61Yr51Yty7XE5A52"⟩,
    ⟨["arabic", "arab"], .unpack
      ("WnI52bT2W3XJWHcOW0226XD2TbbG1Yr51WsoCYMHjB3WN81W2GYK52ZBWW4SYW3W0X63WP4WxhI42R22213" ++
        "12A24027151022322213104222134272424212A2H63252HWM2")⟩,
    ⟨["armenian", "armn"], .unpack "u21mQW73WJ33XYhF5"⟩,
    ⟨["avestan", "avst"], .unpack "aT1hYG2WwuEWN47"⟩,
    ⟨["bengali", "beng"], .unpack
      "rJ1WsB2I2R428323M2721443932349152253PaVD12132219191315133WbdT1"⟩,
    ⟨["bopomofo", "bopo"], .unpack "rU123E1H2hVA35A2DB43171bA1AWCYKW1WsjU2e45"⟩,
    ⟨["buginese", "bugi"], .unpack "bxNS32WcdI1"⟩,
    ⟨["buhid", "buhd"], .unpack "baL2AK"⟩,
    ⟨["carian", "cari"], .unpack "aT1di8131Yq61Wun9WI"⟩,
    ⟨["caucasianalbanian", "aghb"], .unpack "tT1WE1WE1Xbq3WLC1"⟩,
    ⟨["chakma", "cakm"], .unpack "XoOAWq5AXbgUWM2I"⟩,
    ⟨["cherokee", "cher"], .unpack "tP32172N2C2ZgMXO36WefLXI"⟩,
    ⟨["common", "zyyy"], .unpack
      ("1X3R6RWG2C2225O1W11jG32A2141292126653KZ317121pI1bU1lL1Wi91i34ZeDC3W22W02A22272B4B2F" ++
        "IW2X2W723362R2HWB35qFNBMyTd9p83W12YClHN2O3A24212QiG141E1E1M1m3OW11WJFD4a7A6Y3W11bvL" ++
        "X2sr8QYA3WVG1F2rVFANL3C2J24ZO12W1R6R6Z4727B5i0DWLWEWru8d27j2a2YNWUcTBW83X04H928U5WU" ++
        "bSKDKDXPS7ZCXN2X9223132342C21272X32438272S242521472fU3eD3WJaiQX6XFWUrPWD5Y7DF3F2F2W" ++
        "6BaJWQQ22EWD59O6a0WVN5H4D4YQ5Y27C51GC5WP9A7W99U3C52X1fUDE3D4A6WP8F3B798ZN2Y9vii21W0Y3")⟩,
    ⟨["coptic", "copt", "qaac"], .unpack "aT1nR14221YG2YGEfu0YN67e11Wuq6S"⟩,
    ⟨["cypriot", "cprt"], .unpack "XbjB35WE49WtO6312WD224131"⟩,
    ⟨["cyprominoan", "cpmn"], .unpack "XbjB2hhFY6"⟩,
    ⟨["cyrillic", "cyrl"], .unpack "rJ1X63033161cMePbbHBa61XF1Z41ZcBW1X61WVyRY3sf22WybBX0W31"⟩,
    ⟨["devanagari", "deva"], .unpack "rJ1WpNXL3WCaZGW822WWN1WaVSAaCW1zgEA"⟩,
    ⟨["dogra", "dogr"], .unpack "XkICWge0Ayt2WT"⟩,
    ⟨["duployan", "dupl"], .unpack "aT1o3221P2gjR1YhyOYE6D498A38"⟩,
    ⟨["elbasan", "elba"], .unpack "aT1o11XbrDW9"⟩,
    ⟨["ethiopic", "ethi"], .unpack
      ("u81YzDXB243721243WA243W2243721243F2WQ243X53W14QbwSNA727272727272727WXfC63636A727Xrg" ++
        "9724222F")⟩,
    ⟨["garay", "gara"], .unpack "WnU1F141XdXTW74T92"⟩,
    ⟨["georgian", "geor"], .unpack "aT1WdP1XyIW721613WHYXGWC33yO1YgEW72161dC1"⟩,
    ⟨["glagolitic", "glag"], .unpack "aT1nU121hB131dA1YWG1ZXT1YY6Y3kJ1WWVC1XqlE72H372225"⟩,
    ⟨["gothic", "goth"], .unpack "aT1o0231WA1Xbb1R"⟩,
    ⟨["grantha", "gran"], .unpack
      "XjU2I2pLEZk8122W0342WWN1XXjU428323M2722252A32333171673745Ye2221"⟩,
    ⟨["greek", "grek"], .unpack
      ("aT1nR23102B1WG131WC83421512123212K2X1FGbqM5WK555XN3f9M363W73638032W03WM2F2E362J3329" ++
        "Y21bF1WauK1rw0XHI1WtkOX8")⟩,
    ⟨["gujarati", "gujr"], .unpack "XjU2I2e5329232M2722253A232331G43C87Wfw3A"⟩,
    ⟨["gunjalagondi", "gong"], .unpack "aT1XeK2Xgl26222W622268A"⟩,
    ⟨["gurmukhi", "guru"], .unpack "XjU2I2a1326523M27222222312552334184218HWgVGA"⟩,
    ⟨["gurungkhema", "gukh"], .unpack "XkJ1XylGWR"⟩,
    ⟨["han", "hani"], .unpack
      ("aT1hb3Q2XRDbSRG232D2D2D3179b21ZPGW2W7A1WIW9WQWIGCWL1XRPB5Y4W02bvKX3qv5WvQ8quTgP3YDx" ++
        "82e45yyT2D2vk4IdbT2Yp0Wij2W2Zf07c53azRFct2Gp2XmImFWmJaZA6Zg7")⟩,
    ⟨["hangul", "hang"], .unpack
      "ZlDd8czP35A2DF371bA1WNY1YLW0X4W0WVpNTpOgoCDN5WIfb62e45WSW046363633"⟩,
    ⟨["hanifirohingya", "rohg"], .unpack "WnU1F141W21ZO1Xcv1W99A"⟩,
    ⟨["hanunoo", "hano"], .unpack "ba0N"⟩,
    ⟨["hebrew", "hebr"], .unpack "u12pTWO9R56XYeHQ252122222A"⟩,
    ⟨["hiragana", "hira"], .unpack "htE35A2DH621524XO38XT2Wsq82e45B1WF2WkzIe8J1U3mc41"⟩,
    ⟨["inherited", "zinh", "qaai"], .unpack
      "u91312F47313G222I2524Wn22ZoBW0tCWN2125lT2b9W1WwwIGHEWVF1Wso0WF3NmI3I837W04vtyIcN"⟩,
    ⟨["javanese", "java"], .unpack "WjZOXG2B52"⟩,
    ⟨["kaithi", "kthi"], .unpack "XkKAetH1WWkEAwt4X5B1"⟩,
    ⟨["kannada", "knda"], .unpack "XjU2I2uKD232N2A253923248272243A23Zc012271O121WbXP6"⟩,
    ⟨["katakana", "kana"], .unpack
      "tU1U1gyG35A2DH62152XU44Y3cOGbNWG2XQWsWP2e4X1Wkz14272221e93WK1F4"⟩,
    ⟨["kayahli", "kali"], .unpack "WjVKWH"⟩,
    ⟨["khojki", "khoj"], .unpack "Xx1AWfwJAxaGI2WG"⟩,
    ⟨["khudawadi", "sind"], .unpack "XkI2WgeAAxg6WS6A"⟩,
    ⟨["latin", "latn"], .unpack
      ("X4Q7QWH1D1316N2W02jF41B12321A12175SF2221G38222W81615DdU2WdI2XW81Yb8W77WI646D2X8WR18" ++
        "d8eP1X41E1HDXM1WR271S1IWAXwHW1i51WWbF8RY94X5322128MEeO1lIWC2924qb87WXSQ7QXa962WB29W" ++
        "vfNW076")⟩,
    ⟨["limbu", "limb"], .unpack "XkJ1ZZRW02C5C514C"⟩,
    ⟨["lineara", "lina"], .unpack "XbjIWEWdKf1AMB8"⟩,
    ⟨["linearb", "linb"], .unpack "Xbb3C2Q2J222F3EW4YU635WE49"⟩,
    ⟨["lisu"], .unpack "rJ1H1hWI2WVY9WHWWq61"⟩,
    ⟨["lycian", "lyci"], .unpack "do61WycHT"⟩,
    ⟨["lydian", "lydi"], .unpack "aT1hYH1WweUQ61"⟩,
    ⟨["mahajani", "mahj"], .unpack "aT1XeKCWge0AwzQW8"⟩,
    ⟨["malayalam", "mlym"], .unpack "XjU2I2yOD232WK23265G3QZXP1O1WbXR3"⟩,
    ⟨["mandaic", "mand"], .unpack "WpK1lGS31"⟩,
    ⟨["manichaean", "mani"], .unpack "WpK1Xch7W85C"⟩,
    ⟨["masaramgondi", "gonm"], .unpack "XkI2XghU7222WD4122299A"⟩,
    ⟨["meroitichieroglyphs", "mero"], .unpack "do91XVY8W1"⟩,
    ⟨["modi"], .unpack "WitTAycHX7CA"⟩,
    ⟨["mongolian", "mong"], .unpack "bh7Q7XR8WCXV31ZbK264Wzg3D"⟩,
    ⟨["multani", "mult"], .unpack "XsSAXdfL721242F2B"⟩,
    ⟨["myanmar", "mymr"], .unpack "Zd5a5WeoQ1aNW0Y5W1xvFK"⟩,
    ⟨["nandinagari", "nand"], .unpack "XjU1J2xTAZcT19181WbXJ6zbJ83WF3B"⟩,
    ⟨["newa"], .unpack "XjU2ab4122A17102XYuBXU25"⟩,
    ⟨["nko", "nkoo"], .unpack "WnU1F141iEWS33XYf82"⟩,
    ⟨["olonal", "onao"], .unpack "XkI2ZXx9WC51"⟩,
    ⟨["oldhungarian", "hung"], .unpack "do6131Yq61G1WxbAWKEWK86"⟩,
    ⟨["oldpermic", "perm"], .unpack "aT1nR163B1gR1Xaw5WC"⟩,
    ⟨["oldturkic", "orkh"], .unpack "do61Yq81WxXNXB"⟩,
    ⟨["olduyghur", "ougr"], .unpack "WpK1XciQ1Wb3Q"⟩,
    ⟨["oriya", "orya"], .unpack "XjU2I2i9328323M2722253932338352253IZoI1O1"⟩,
    ⟨["osage", "osge"], .unpack "tQ13171XF1Xbm5W55W5"⟩,
    ⟨["phagspa", "phag"], .unpack "bh9221XaD1ZbL1WWVUWP"⟩,
    ⟨["psalterpahlavi", "phlp"], .unpack "WpK1XcnDI84D7"⟩,
    ⟨["runic", "runr"], .unpack "bVRXR"⟩,
    ⟨["samaritan", "samr"], .unpack "XZ3WF3FfYC1"⟩,
    ⟨["sharada", "shrd"], .unpack "XjU1ab71213231A131WbY1631xWDY3"⟩,
    ⟨["shavian", "shaw"], .unpack "aT1XcZOWH"⟩,
    ⟨["sinhala", "sinh"], .unpack "XkI2WXT32I4O292137415621287A33YzP1XYcLK"⟩,
    ⟨["sogdian", "sogd"], .unpack "WpK1XdmRWB"⟩,
    ⟨["sunuwar", "sunu"], .unpack "tP221A131T141XhrRW3FA"⟩,
    ⟨["sylotinagri", "sylo"], .unpack "XkI2Z5AWgYAWE"⟩,
    ⟨["syriac", "syrc"], .unpack "tS23221P38222sI1F231W21BBR1ZKE2WT33dPBas0121"⟩,
    ⟨["tagalog", "tglg"], .unpack "bYUMA1M2"⟩,
    ⟨["tagbanwa", "tagb"], .unpack "baL2WBD2322"⟩,
    ⟨["taile", "tale"], .unpack "tP26241Yl1AXhHU35"⟩,
    ⟨["takri", "takr"], .unpack "XkI2WgeAAygLWR7A"⟩,
    ⟨["tamil", "taml"], .unpack
      "XjU2I2mE226432442212242434C5543243171FLZkB1WbeT1xcP121WP2YfBWJE1"⟩,
    ⟨["tangut", "tang"], .unpack "hsSGl01XrqI1W1bgT9tOlH9"⟩,
    ⟨["telugu", "telu"], .unpack "XjU2I2qGD232N2G392324822331343A89ZfS202O1"⟩,
    ⟨["thaana", "thaa"], .unpack "WnU1F231X3Ae0WJXYnI1B1"⟩,
    ⟨["thai"], .unpack "rJ1R1WD1WF1Xw9WR6S"⟩,
    ⟨["tibetan", "tibt"], .unpack "YzSXA2W55W82W52F2752dmN4"⟩,
    ⟨["tifinagh", "tfng"], .unpack "tR12124Q1gb8WP82F1"⟩,
    ⟨["tirhuta", "tirh"], .unpack "XjU2I2aaG1D1G1WbXRAxv5XA9A"⟩,
    ⟨["todhri", "todr"], .unpack "tQ13131A121XD1XbuNWL"⟩,
    ⟨["toto"], .unpack "rJ1ZYuEW0"⟩,
    ⟨["tulutigalari", "tutg"], .unpack "YiHAZd7121WbXP6b21xgUA21312W72A2131242A2292"⟩,
    ⟨["yezidi", "yezi"], .unpack "WnU1F141X3AXdfRWB2332"⟩,
    ⟨["yi", "yiii"], .unpack "htE26A38c71ymPWbI4WOtZ75"⟩]

end Script

end LiveDoc.Text
