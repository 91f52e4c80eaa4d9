import LiveDoc.Text.Property.Basic

/-!
# General categories

The categories of characters. Every character that is assigned belongs to exactly one of them.
-/

set_option autoImplicit false
set_option relaxedAutoImplicit false

namespace LiveDoc.Text

namespace Category

def uppercaseLetter : Property :=
  ⟨["lu", "uppercaseletter"],
    .unpack ("X4QY9N27W310R3107310M22024221222334222342220222213122232122418131313107310831312" ++
      "30T8222312404eB1214191712321222H29W5133410B6131223WKWI10GA10Q2206310WG3W7YV7W72161sAXOX" ++
      "dQ17WC33fB10XCA10WHA896B89896C10398XB4D4D4D5C4dF1514333314571022434B261X01XtJWHWI123310" ++
      "2242131930WI912151WWeN10MK10DZC106410UB1212204512131214109252507242122416103P1sbRQWdDW9" ++
      "ZDW5a2B2F2722Wv4WKa3MXzNW1rt3W1wX8QRQRQR12231323428RQR2243827S224252147SQRQRQRQRQRQW0PW" ++
      "3PW3PW3PW3PW31Zn4W3")⟩

def lowercaseLetter : Property :=
  ⟨["ll", "lowercaseletter"],
    .unpack ("Y5QWS1WBO280R2207220N31212331213142513143313102312221314121323371313107220822312" ++
      "1410S2731322151032X72Rb81214143J1SW422430B25213132WLWH0HA10Q3105220WHWIWAYV5WC33tH6Xd99" ++
      "21YPWDX2D2W3YA10XB290WH2996B89896B8989E3898989522714322943298B322dR14241S15151329451WN1" ++
      "Xv4WH214203512226610WH22812151DW72161WWcR10MK10DZC105230W028023104512131230A61610751213" ++
      "14105R141vGWC698XIqYF7D5WYCQWdLW9ZDW5a1B2F2722WvTWKZ2MXzNW1rt3W1wX2QR72IRQR421272BRQRQR" ++
      "QRQRQRQRQRQRSTP26RP26RP26RP26RP2621WxGA2K76XpAW3")⟩

def titlecaseLetter : Property :=
  ⟨["lt", "titlecaseletter"],
    .unpack "jK13131W81cwA89898D1G1WH1"⟩

def modifierLetter : Property :=
  ⟨["lm", "modifierletter"],
    .unpack ("r7I5CF58121ZA161kE1cE1aA2dM251W11A141a61aD1WdS1Z41n81WuJ1YF1oN1k06aKX1E1W4W6r81E" ++
      "1HDYa22cP1b61k51WD561Y52Y13ynC1WeB6dN1YM1T2YT9XJ1O1YD342k51N1ZE1YG1M2YB4A1rgS1WF2XY262W" ++
      "B29Wk21W21tzN4lD3WA2mODX3221mWT42722hv0X0bG7zC1Wa41")⟩

def otherLetter : Property :=
  ⟨["lo", "otherletter"],
    .unpack ("aG1G1d9154bN1vMR54WFW12AW522Y621P2B331H12UUXRC1PW2MMWCP8B6O26IWAWTWN41J18AHF5832" ++
      "3M27214441H1E223F2B196523M27222222W1421K3H9232M27222541J1G2O1C8323M27222541W0223G1I1264" ++
      "32442212242434CN1WM8232N2G41R33132W0158232N2A2541W1222G2I9232WA31H16393P66I4O292137WSWH" ++
      "22D6WT221252O212A22A135O4W21X282W5S5YNWCL1H6544142835DD1YLfJ243721243WA243W2243721243F2" ++
      "WQ243X5W7GYLp03H2Q6XD788IEJFIFD23GWLWA1X6W42WM853W3216X8BW0WJU35CWD5QWONAWMaMWGI8WOUE2B" ++
      "WDRW5WB3BUYL4262241WYT4YaQWPPNA727272727272727mP1WN15XO912XS516WC2Y1IW1WIGlHbvKX3qvQ2Wa" ++
      "RX6W99dK5GB2X51WJX8aF1YB14723242NUWLFWJX164122CSBNQT8WGWF539B52WAO328LG26414WJ214235312" ++
      "1P24B81F63636A727ZMW4UgoCDN5WIdtLgP3YDX612A2D252122222YFW3gMJX23WNWACYO52ZBYDA2WE3W0463" ++
      "63633W5C2Q2J222F3EW4YUhIT4WIWHW1EK287W7BU3W558Z5XGY6W99WLY0WLDf1AMB8ZT6312WD22413NBNAW0" ++
      "X4J22BMBQX9WP72X31G4232TWCT4TW582SSWNBMBJEIYIXBaTW5W8421eQWB72H3WTTB19MWCIWGLSNDWMWR231" ++
      "EWEW2PRW5U1319W441DWHF4M121W5I2PK2X2721242F2A8WGW88323M27222541J1D5W0A21312W721Q121WEWM" ++
      "J4L3W0WHL221aUWGWB4W6WHL1WTWCE1XARW77b0WDbQ83138222OG121Y283W8H121T1BW981M1CWFK1JXBbEW2" ++
      "W192W6I1WJUYK7222W7M1Q6222W1F1fIJG12D2W3Z11XIyNcEbAXs2Y4GWYII6QZZR6nPcYMUWuRnB8W0IXHIUJ" ++
      "WHWLL6Jj2W9i3XD61aLbgT9WdTWBAeeOeCG1U331F49hOXhFYE6D498AeaD1l6WEW31fCUJWDkKRcDU31l07242" ++
      "22F2bBWh742R2221312A24027151022322213104222134272424212A2H63252HZnJWij2W2Zf07c53azRFct2" ++
      "Gp2XmImFWmJaZA6Zg7")⟩

def nonspacingMark : Property :=
  ⟨["mn", "nonspacingmark"],
    .unpack ("tPYJdS5dIWE21222221XBBWILH1Y97363224W51W0RXUBWS9A1P4292325WD3WT9WCO2W1WP12158514" ++
      "7B2U1WS15491L2R132WR152523341W0241C2WR1552251L2N621WS131249182C2W01X01D1WK141WP12363248" ++
      "2C2U1WS1317162L2T2WR25491L2U1XB18321XT137D8Y6139C7XC2S102WPE25226B2W5A1YA4262232Q253H4E" ++
      "13271G1rM3zH3U2W02W02X3227913BA1WF321YP2W41YQ352A173c3231WS12702387A31WIE2GWJ4WI1252161" ++
      "WA9D2W243223WQ1224123WS832ZT32D27517142bDX2s8D514CYb23ZI1Y4W1mS4YF2WVh215AW22XJ2dP14151" ++
      "Q261ZS2RIE1W88QBWG3WI13432W91X663232D191WH1WL123326221WC291cM13151qXU1sPGHGWVD1cA1ZQ5Wr" ++
      "S32264WA351aB2nG4X45f82XI4X9BWJ4Z01WOFWB132B3WJ43281X03W6528X11D2WM9B431Y3331227131a314" ++
      "8M2WR241W7745X96E102F2XO83321O1XN6215222cM47222S2XO83122YE1213621Y91213425dC922d922151Z" ++
      "L43251W2AWA63491A633WGD22i472621XLM372222YU641222721XB24121g72C2WM56121O1amI17FgxQC43Xn" ++
      "H5WT7WXQ1X24XK1piI2ZwPWF3NmI3I837W04ZP3XWRWO5WJ91F1N52FWhS72H372225Y81a67h41X04lD4d72sO" ++
      "7YH7vnpIcN")⟩

def spacingMark : Property :=
  ⟨["mc", "spacingmark"],
    .unpack ("XhE1WP1339422WK2WS37232B1WD1WS3X51WS39122WN2WS1217232B1YA2224323B1WB3X04X02WS125" ++
      "3222A2T1F2WS36323B1WC2XE378J2fL2X21aH2517132Q2B337M23631B3WrE1W01Z618822g64335226c82WS1" ++
      "21A12296ZM1WI1612522X01W015231WU1332142WI892aH1M1aYL2WVyI231XR2WKGZJ2WH1WI25233YI232P1W" ++
      "F121YH13261cL2222221vpE121Z41WF352YN1P2WT1WI3A2E1Y134221aG3W12WS2243233A1B2XN3813124222" ++
      "1Y939241YE3712431cL37431YL39221YH12271YB12251dE3A1d0622513121ZJ39451XN1U2X11i51F1YE1813" ++
      "1bS55221gA2D1WI29221mm93YsPWOYC2uyO276")⟩

def enclosingMark : Property :=
  ⟨["me", "enclosingmark"],
    .unpack "WbE2axC1WoH423WZmQ3"⟩

def decimalNumber : Property :=
  ⟨["nd", "decimalnumber", "digit"],
    .unpack ("WIAWoPAZBAbDAiAAYQAYQAYQAYQAYQAYQAYQAYQAYQAY4AYQAX9Ae0AX9AWy3AW8AeMAZ5AaCA7AaSAX" ++
      "PAZBA7AWaqOAqSAW8AbDANAXPAi4ArZ5AWjKAXdDA7AuMAZ5AWUAZLAe0Ag2AYQAh3AYAA7KXFAiKAYAAqCAXPA" ++
      "cUAX9AiKAmlMAXiIAXPAZBAm8AuiBAXwEWJXjDAiKAl7Ad0AwHAZyGA")⟩

def letterNumber : Property :=
  ⟨["nl", "letternumber"],
    .unpack "bYC3Xt6W434YvM1Q9F3WVo0AtWQWMjR191ZB5dmKYI"⟩

def otherNumber : Property :=
  ⟨["no", "othernumber"],
    .unpack ("aO26133Xj26h56YS3ZA7c17I9j0AWYOKWaOAkG1WsC1467AbDGWB1sEWTXHMpBUWiM1WbQ4ZFAW082FW" ++
      "2AW9FWVdQ6spFWEX44I2g1RW64Wh08Q7W99XE5N6a623G3WFX39WM2W03XE5YC8P8WB7fL6gCW0a4AWC4YK7ZBK" ++
      "h8KWhH2iS9x4JwFLpYM7uONvq5KDKYGPapU9z0WS2324XFWE2FWV2D")⟩

def connectorPunctuation : Property :=
  ⟨["pc", "connectorpunctuation"],
    .unpack "Y31dk72K1WxY72P3cN1"⟩

def dashPunctuation : Property :=
  ⟨["pd", "dashpunctuation"],
    .unpack "WF1Wi91WL1YtN1WX71XZC6YrL131W1251T1jD1K1YJ1WssI2W71B1aF1YuN1f91"⟩

def openPunctuation : Property :=
  ⟨["ps", "openpunctuation"],
    .unpack ("WA1WK1W11YxO121WyR1XlD141W81WP1G1pF121W01WZ2106XJ1W2104i210AX3121W31WY8103Q1J103" ++
      "iQ104410331Wsp01bU1U10741I102aG1WK1W114131")⟩

def closePunctuation : Property :=
  ⟨["pe", "closepunctuation"],
    .unpack ("WB1WL1W11YxN121WyR1XmP1WP1G1pF121W01WZ2106XJ1W2104i210AX3121W31WY8103WE103iQ1044" ++
      "10332WsoS1c11U10741I102aG1WL1W113131")⟩

def initialPunctuation : Property :=
  ⟨["pi", "initialpunctuation"],
    .unpack "aH1dgG13231Q1YpQ1215131G141"⟩

def finalPunctuation : Property :=
  ⟨["pf", "finalpunctuation"],
    .unpack "b21dg1141T1YpQ1215131G141"⟩

def otherPunctuation : Property :=
  ⟨["po", "otherpunctuation"],
    .unpack ("W3323312122B242S1X7161F281rL191k26WB1WO13131WE2L222E123XD4YA1WDEcH3WOFW11dE2B1ZH" ++
      "1YS1YT1hJ1D1gR1XT1B2aEF21YK1XD552YJ6aH1oO9tU1Z13XA2a3323W7624f42c02Z5726a62B7T3Z14WT5X1" ++
      "2X38C1vT2989934334B212AYg3422YK1ZK2533139222132B52A34212D33iQ3WR1b41zx12dM3Y71B1YN6h94X" ++
      "P2WA321WJ2WH1Y5DH2Z14Z32H2d21qwB731N1L2344324837122ZQ323312122B242S1W6132i83qI1WI1iC1t0" ++
      "1bE1W11dP9W81YK7X57XS4zN5WE4b47YH224Z34WI2XI451E123XR6YF1eK222YM5B221YC1d3NYD3TDXF1Z73d" ++
      "51dH3a11Y08XM325Y1AbU1Y35WC2pQ2XDDaL1WaL5YWR2kmU2ZA1X4591mQ3eH4fI1piM1cyU5YWI1wQ2")⟩

def mathSymbol : Property :=
  ⟨["sm", "mathsymbol"],
    .unpack ("WD1H3X0121WF151W71W11tN1m13bzK1E1W93E3ZG1W9571X756251313181W123121W1dKW22XT1W0PW" ++
      "A6k51A1WO8YJ1fR53W0BGd9Z7NX15W13dAWIL36WtgH1vJ123aA1H3X0121Z8174YoI2WrnF1Q1W11Q1W11Q1W1" ++
      "1Q1W11Q1baC2")⟩

def currencySymbol : Property :=
  ⟨["sc", "currencysymbol"],
    .unpack "W61Z24WeI1Z01l32l3281cT1dG1nO1XmB1XfDW2WaXM1rv81YG1a01c3242dkU4WpzA1Xn11"⟩

def modifierSymbol : Property :=
  ⟨["sk", "modifiersymbol"],
    .unpack ("Y2121XA1715141lQ4DE67212HYP1F2WfC1baK123C3E3E3E2Zi62WVlLNA2YB2WVG1F2qgTHxO121a81" ++
      "XYVN5")⟩

def otherSymbol : Property :=
  ⟨["so", "othersymbol"],
    .unpack ("aC1315121WVH1dJ2Z42bL1B1K2d01lK1h21Z7621Z91bM1WB1hK3G12336L102ZA8262264bC2t9AsB1" ++
      "sA1a3W3gDAA9WjH22422B122760351C2F12221WS2A5342222272W032212W0dL85K373XJ2UQW97XANBXKXGNa" ++
      "S292WN9YI2d0WEWDX3d8lHWHM27W83W12YCcD6gH2WGQ2XRDbSRG51E2D1M272fR25AW2W7A1HW0CU91GW1BW8G" ++
      "fAbvLX2sWRWOwT4B221nG3rWIGZ41WF3kK14152E2f49WRH332D41WHWEWrG2o31YeT1XdS85HpWO461qpM1ZY3" ++
      "cNHj2a2YNWUcTBW83WT63N28U5WUMX441b1XPWcGlGWP4WK82E22Wu11YVQ1Z61s9WD5Y7DF3F2F2W6Oa6WQTEW" ++
      "D5982F6a0d36sF5H4D4YQ5Y27C51GC5WP9A7W99U3C52X1fUDE3D4A6WP8F3B798ZN2XU")⟩

def spaceSeparator : Property :=
  ⟨["zs", "spaceseparator"],
    .unpack "W21Z41auK1XlEBW61WH1Za21"⟩

def lineSeparator : Property :=
  ⟨["zl", "lineseparator"],
    .unpack "dmI1"⟩

def paragraphSeparator : Property :=
  ⟨["zp", "paragraphseparator"],
    .unpack "dmJ1"⟩

def control : Property :=
  ⟨["cc", "control", "cntrl"],
    .unpack "1W1Y3W2"⟩

def format : Property :=
  ⟨["cf", "format"],
    .unpack "aJ1WhU6N1b71WJ1hD2XJ1ZW91XYU5R5WJ52AWxdT1d23ZjC1G1ei7GWaf74alR8vts01W0Y3"⟩

def privateUse : Property :=
  ⟨["co", "privateuse"],
    .unpack "WxpQbpEzvnNXbb03Xbb0"⟩

def all : List Property :=
  [uppercaseLetter, lowercaseLetter, titlecaseLetter, modifierLetter, otherLetter, nonspacingMark,
    spacingMark, enclosingMark, decimalNumber, letterNumber, otherNumber, connectorPunctuation,
    dashPunctuation, openPunctuation, closePunctuation, initialPunctuation, finalPunctuation,
    otherPunctuation, mathSymbol, currencySymbol, modifierSymbol, otherSymbol, spaceSeparator,
    lineSeparator, paragraphSeparator, control, format, privateUse]

def letter : Property :=
  .union ["l", "letter"]
    [uppercaseLetter, lowercaseLetter, titlecaseLetter, modifierLetter, otherLetter]

def casedLetter : Property :=
  .union ["lc", "casedletter"] [uppercaseLetter, lowercaseLetter, titlecaseLetter]

def mark : Property :=
  .union ["m", "mark", "combiningmark"] [nonspacingMark, spacingMark, enclosingMark]

def number : Property :=
  .union ["n", "number"] [decimalNumber, letterNumber, otherNumber]

def punctuation : Property :=
  .union ["p", "punctuation", "punct"]
    [connectorPunctuation, dashPunctuation, openPunctuation, closePunctuation, initialPunctuation,
      finalPunctuation, otherPunctuation]

def symbol : Property :=
  .union ["s", "symbol"] [mathSymbol, currencySymbol, modifierSymbol, otherSymbol]

def separator : Property :=
  .union ["z", "separator"] [spaceSeparator, lineSeparator, paragraphSeparator]

def groups : List Property :=
  [letter, casedLetter, mark, number, punctuation, symbol, separator]

def assigned : Property := .union ["assigned"] all

end Category

end LiveDoc.Text
