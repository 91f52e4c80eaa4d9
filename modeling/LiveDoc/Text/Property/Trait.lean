import LiveDoc.Text.Blank
import LiveDoc.Text.Property.Basic

/-!
# Traits

Properties that a character has or has not, whatever its category and its script.
-/

set_option autoImplicit false
set_option relaxedAutoImplicit false

namespace LiveDoc.Text

namespace Trait

def alphabetic : Property :=
  ⟨["alphabetic", "alpha"],
    .unpack ("X4Q7QWH1B1516N2W02jO5CF58121XP1UI2234217123212K2XL2ZF9aB2W7317WAW9E212222219R54U" ++
      "B6WP27FY9285853B331HWHEY8PW2A2516O3JKP8B6O26919WBBC477XE2G235FEJ28323M27214448323221915" ++
      "225D2B15326523M27222222555232518421I6C329232M27222549232241G4M45328323M272225483232A252" ++
      "25E1H226432442212242434C5543234171WAD232N2G48232392233134T428232N2A25482323927224E3DD23" ++
      "2WA382323216485N6232I4O292137962128J2EWR6771WL221252O212J23352171F4W21X282W55J5G2W5X6WO" ++
      "2135HX2B43W721613WC2fN243721243WA243W2243721243F2WQ243X5W7GHXO364p03H2Q6XD4B8KCLDKDD232" ++
      "2DWL3JF151X6XR8WC6X8BW02C59OU35CWD5QWOS5X13KWK1O2C3WJWL2F28WLWB34BWD2BFWON3BW53B6WC33WB" ++
      "42622416b6KW3CdU363W73638032W03WM2721432744365D6327YO1E1HDY91513A21457102242B346551IWAv" ++
      "8WLWwHcC7442DW721613WP81HNA7272727272727272W1WH1k53Q985355XO732XS246WC2Y1IW1WIGlHbvKX3s" ++
      "WNX6WF3dL4GB2LWG684YKW993YA3X5322128MK2W2PWLDX621WE64123BW26W4ET4WK2CG1HGB52WOAEJN4X702" ++
      "P33G34C63636A7272WC2E7YUMgoCDN5WIdtLgP3YDW87D56C2D252122222YFW3gMJX23WNWACYO52ZBW6Q7QCX" ++
      "R46363633W5C2Q2J222F3EW4YUX8WMdKT4WIWHW1EU6WC6U3W55825WCa3JW55W55W99WLDB2F27222B2F27224" ++
      "WLDf1AMB8P62WB29X86312WD22413NBNAW0X4J22BMBQX9WP72X342268232TWCT4TW582SSWNBMBJEIYIXBWPW" ++
      "KEWKEW9W4S416Nd3WB2242H3WP14TB19MWCIWGLSNAX8WD5BWQA1EPOWKI49W441AX224A2B121W5I2W33174X1" ++
      "721242F2A8WQO428323M272225483232417167TA21312W72A213124224121WEX42324L3W0X43221aUWN37Q6" ++
      "W4X12141WTWN31XAR3EM7b0WQYBX2W183138222U223234Y183WF362122SWK3AIXA61JXBbEW2W192WE2721WJ" ++
      "U3M2EXC7222WD4122232132P6222W6222421fINAH2WA43YJ1XIyNYAYIIbAXs2Y4GWYII6QZZR6nPcYMWGWuAn" ++
      "B8W0IXHIUJWHH4W1L6JiUWEbQX2Z5XD5WQ8HX3221D2FbgT9WdTWBAee8427222eCG1U331F49hOXhFYE6D498A" ++
      "51bc3XN2X9223132342C21272X32438272S242521472fU3P2P2W02P2W02P2W02P2W02P28WxGW076bS72H372" ++
      "2256X0W31YKWEB7H1fCUJWDkKScCU31l0724222F2bBWTX64141WcR42R2221312A2402715102232221310422" ++
      "2134272424212A2H63252Hp9Q7Q7QYvEWij2W2Zf07c53azRFct2Gp2XmImFWmJaZA6Zg7")⟩

def joinControl : Property :=
  ⟨["joincontrol", "joinc"], .unpack "dlL2"⟩

def whiteSpace : Property :=
  ⟨["whitespace", "wspace", "space"], ⟨blankRanges.toArray⟩⟩

def all : List Property :=
  [alphabetic, joinControl, whiteSpace,
    ⟨["asciihexdigit", "ahex"], .unpack "WIA86R6"⟩,
    ⟨["bidicontrol", "bidic"], .unpack "WoF1bx82R5WP4"⟩,
    ⟨["caseignorable", "ci"], .unpack
      ("W9171C1W5121XA151215132l8b65251A221d47bM161WJWE21222221WE1C6BB21W51BLH1Y982A24W3121" ++
        "W0RXUBWSB5131POWD3WE18269WBWRWP121585147B2E1G1WS15491L2R132WR152523341W0241C2WR1552" ++
        "251L2N621WS131249182C2W01X01D1WK141WP123632482C2U1WS1317162L2T2WR25491L2U1XB18321XT" ++
        "137C9Y6139A127XC2S102WPE25226B2W5A1YA4262232Q253H4E13271G1Y21oK3zH3U2W02W02X3227913" ++
        "B4161WF5WL1X42W41YQ352A173c3231WS12702387A31W919W0WJ4WI1252161WA9D2W243223WQ1224123" ++
        "WS832X36XL32D27517142WKX1E1W4Y8jC123C3E3E3E2D592B13135WJ52A21E1HDWLW2YXB2YL3Z21G1Y4" ++
        "W1WH1k51W644561Y16Y13ynC1WeB6dN1Y642A21T4XJ2FW3XH1O3YB342914151Q261ZS2RIE1W88QBWG3W" ++
        "I13432I1M2X563232D191W51C1WL123326221S1F26221Y85A3YT13151qXU1ZOHnGG41DGW4131aF18171" ++
        "C1W5121WH1WF2X61M3lI1cA1ZQ5WX762WB29nP32264WA351aB2nG4W81R521f62XI4X9BWJ4Z01WOFWB13" ++
        "2B3WJ4323151B1WK3W6528X11D2WM9B431Y3331227131a3148M2WR241W7745X96E102F2XO83321O1XN6" ++
        "215222cM47222S2XO83122YE1213621Y91213425dC922d922151ZL43251W2AWA63491A633WGD22i4726" ++
        "21XLM372222YU641222721XB24121g72C2WM56121O1am2H7FgxQC43XnH5WT7A4lD3WA2kI1X2HX3222mW" ++
        "S42722Yg7224ZwKWF3NmI3AG37W04ZP3XWRWO5WJ91F1N52FWhS72H3722256X0W31a6EgS1X04lC5d72sO" ++
        "7YH8Xv85vklT1W0Y3Z5cN")⟩,
    ⟨["cased"], .unpack
      ("X4Q7QWH1B1516N2W02b9245bM2W582W05Y41WC43234217123212K2XL2ZF9aB2W7AWAXyJW721613WC24q" ++
        "MXO36Xd9B6WC33X3b6X3dU363W73638032W03WM2721432744365D6327YO1E1HDY91513A214571022426" ++
        "51346551IW142vCWLWwHcC7442DW72161WWcQWFJUZ9Y9442X0322128M523vGWC2E7XIqYF7D5WXBQ7QWc" ++
        "CXIY4W55W5YOB2F27222B2F2722jI1332WB29WdDWKEWKY1MBMXyMX2rs2X2wW7XN2X9223132342C21272" ++
        "X32438272S242521472fU3P2P2W02P2W02P2W02P2W02P28WxGA2K76dEX0XdPX6XYEQ7Q7Q")⟩,
    ⟨["changeswhencasefolded", "cwcf"], .unpack
      ("X4QXT1BN28W210R3107220M22032221222334222342220222213122232122418222220831083221230T" ++
        "8222312404cU1WC1214191712321222H29N1D3420C223221223WKWI10GA10Q2206310WG3W7WI1XyKW72" ++
        "161v56Xd9A7WC33fB10XC62310WHA896B89896C10398HWH33366336C4D56336eJ14271WFGK1vDQWxCWH" ++
        "WI1233102242131930WI912151WWeN10MK10DZC106410UB121220451213121410925250724212241610" ++
        "3P1xNXIqYF7D5WXBQWdDW9ZDW5a2B2F2722Wv4WKa3MXzNW1rt3W1WWpLW3")⟩,
    ⟨["changeswhencasemapped", "cwcm"], .unpack
      ("X4Q7QWS1BN2W02X22XM2S3E32215Y02I7R2221224224253122318131224661B2aC1WC43243217123212" ++
        "K2WG4W2252Z99aB2W7BW8XyKW721613WC33qMXO36Xd9B6WC33b0141H1YLa1312YP363W73638032W03WM" ++
        "2721432744365D6327eJ14271S1IW142vCWLWwHYK22228Y98442DW72161WWcQWFJSZBE3X0AF43352P2U" ++
        "322128P2wO1TXIqYF7D5WXBQ7QWcCXIY4W55W5YOB2F27222B2F2722WtRWKEWKY1MBMXyMX2rs2X2WWoKX6")⟩,
    ⟨["changeswhenlowercased", "cwl"], .unpack
      ("X4QY9N27W310R3107310M22024221222334222342220222213122232122418222220831083221230T82" ++
        "22312404eB1214191712321222H29W51910B6131223WKWI10GA10Q2206310WG3W7YV7W72161sAXOXdQ1" ++
        "7WC33fB10XCA10WHA896B89896C10398P8989895C5C4D5C5eJ14271WFGK1vDQWxCWHWI1233102242131" ++
        "930WI912151WWeN10MK10DZC106410UB1212204512131214109252507242122416103P1sbRQWdDW9ZDW" ++
        "5a2B2F2722Wv4WKa3MXzNW1rt3W1WWpLW3")⟩,
    ⟨["changeswhentitlecased", "cwt"], .unpack
      ("Y5QWS1WBO280S3106220N3121233121314161314331310231513141213141215122220822082302410J" ++
        "41089132215103262221224224253122318131224661B2aC1WD1214143J1SW422430B25213131WMWH0H" ++
        "A10Q3105220WHWJW8Yv86Xd9921cM141H1YM10XB27610WF2996B89896B8989E38989895227143229432" ++
        "98B322g21W3G51w7QWy3WH2142037131B10WI912151DW72161WWcR10MK10DZC106410UB121310451512" ++
        "23109C1075121314105R1wO1TXIqYF7D5WYCQWdLW9ZDW5a1B2F2722WvTWKZ2MXzNW1rt3W1WWpNW3")⟩,
    ⟨["changeswhenuppercased", "cwu"], .unpack
      ("Y5QWS1WBO280S3106220N31212331213141613143313102315131412131412162222207220822222141" ++
        "0J41089132215103262221224224253122318131224661B2aC1WD1214143J1SW422430B25213131WMWH" ++
        "0HA10Q3105220WHWJW8YV6WC33tH6Xd9921cM141H1YM10XB27610WF2996B89896B8989E3WM225121432" ++
        "251443298B32251fS1W3G51w7QWy3WH2142037131B10WI912151DW72161WWcR10MK10DZC106410UB121" ++
        "31045151223109C1075121314105R1wO1TXIqYF7D5WYCQWdLW9ZDW5a1B2F2722WvTWKZ2MXzNW1rt3W1W" ++
        "WpNW3")⟩,
    ⟨["dash"], .unpack
      "WF1Wi91WL1YtN1WX71XZC6X01W91G1hJ1Yb8131W1251T1jD1K1YJ1WssI2W71B1aF1YuN1f91"⟩,
    ⟨["defaultignorablecodepoint", "di"], .unpack
      "aJ1qN1s41YV02Wq82XO5XYT5R5WJGZl11WskLGcN1a61XI9WocT4alR8vtrUZd4"⟩,
    ⟨["deprecated", "dep"], .unpack "fK1WgK1XhE121XaD2XfE6rG2zkgH1"⟩,
    ⟨["diacritic", "dia"], .unpack
      ("Y2121XA1715132l8a42866I251A2d65bO1WPWE21222221Z8852ZB25243X6RXUBWSBW42Z38WBAHSX01H1" ++
        "44T1XD1H1YI1H1YI1H1WH3WU1H181YR1YI1H1YI1H1YH2H1Z11YJ1D621YF1E5XE2S10252X5322X11YK12" ++
        "2WA255Q721B2rO3zJ2W01ZPBA1g73eE1L831WIF3BYC1G1W89WO2WS1C2X52X36XLP517133WKX1WIW56CW" ++
        "7BjC123C3E3E3E2YiR3f81lB6YD4Y31WVdS1D221T2XL2FW3YA3YH2D1W71ZS1SIWR4W61Y31D1W61ZQ3X4" ++
        "4WL1Y85A3Z52qXU1tQGdN121WH1WF2X61tL1Wc662WB29pI351aB2nE6W81R5hS3X9BWJ4b71WB1XB2YS2X" ++
        "11XF1A3YC2aO2XJ2H1P745XS322E2Y3141Z02d42Z31YQ2YN1dM2dB251a21XM1J1XK1iJ1dB122XK1iN2O" ++
        "1amPFgyC1XnH5WT7n72mKHXJ2mWF42722dd2WF3NmI3469837W04YvQX0b97h41X04tN2sO7YH323")⟩,
    ⟨["emoji"], .unpack
      ("W51716AYJ151dhI1D1c01N1XT6G2gR2D1aC1QB53bE1cF2B1A1WS425A13132315131223141429361216C" ++
        "C2312221J132J6212242613252C26231622122L2662431513136213102714171B2G13151215321C2WI3" ++
        "A1F1F1h12jU3K2WL151We31D1oD121Yup91bH1a62D2F13AXEQ22O1L139M2aKW33YJ32233XL332dF2X1C" ++
        "62O8238D1343152E23192A163D39331215171417XOWIX868335A4122413AcBC51e5WG2A2aUYKD4A6WP8" ++
        "F3B79")⟩,
    ⟨["emojicomponent", "ecomp"], .unpack "W51716AdjQ1bS1WwxE1XXyKQlC5Wl04vjWQY3"⟩,
    ⟨["emojimodifier", "emod"], .unpack "ZeaS5"⟩,
    ⟨["emojimodifierbase", "ebase"], .unpack
      ("fZO1c31H4YypI1WU33133YP23BMJ4153238121P1bG251M152aK345XM1H3A1C1nI1319871AA33WQ1X022" ++
        "221I32DcD3WC9")⟩,
    ⟨["emojipresentation", "epres"], .unpack
      ("efS2bK44131lQ2M2WKCWD1K1E192I2629161M1822151318152T1W51215321X03P1F1wN2WL151Ywn91bH" ++
        "1b513AXEQ21P1L13523M2aKW2D92X82MDWC55DH414X9212b13X1E42OJ1R2E1XPXNWIX871433354C289c" ++
        "BC51e5WG2A2aUYKD4A6WP8F3B79")⟩,
    ⟨["extendedpictographic", "extpict"], .unpack
      ("aF151dhI1D1c01N1XT6G2gR2D1aC1QB53bE1cF2B1A1WS425A13132315131223141429361216CC231222" ++
        "1J132J6212242613252C26231622122L2662431513136213102714171B2G13151215321C2WI3A1F1F1h" ++
        "12jU3K2WL151We31D1oD121Yup91W94Y8CG2G1F2W7AYK2D2F13AKWPSFB1L13924AN7b23YJ32233XL332" ++
        "46d62X1C62O8238D1343152E23192A163D39331215171417XOWIX8683H41263Dc2W7D4WQ8B6WA8W02D4" ++
        "3EAW8DWG2A2aUXR8FZMd9WWU")⟩,
    ⟨["extender", "ext"], .unpack
      ("aT1mA2xB1j81pB1ZE1XS1t91Z41XjG1WQ1oN1hR1X71abB1WD5YB2Y13ynC1Wn81WV21N1ZE1YG1M2rkL1X" ++
        "ZJ2WlR1S151WdF1eF1YO2l33WdN1qk42Wc3221zb12WcO1wG3")⟩,
    ⟨["graphemebase", "grbase"], .unpack
      ("W2Y2W3D2o5YK83657212K2c78aB2W73WJ33WG1213131AR56IAC12WFMG2Y89172315W1312UUXRC1FWCA7" ++
        "4O51A1418F2P612B6W0IWBWRWO212494238A3T2228323M2721444122723221E2235O6126523M2722222" ++
        "253P4218A3321D129232M27222544912241G25C819228323M27222541317232G2235IC1264324422122" ++
        "42434C6122432341ML7328232N2G4144K331325A8A2B232N2A25423122P2225A23FB232WA3122632322" ++
        "532A5Q322I4O292137A2778A33DWH22C89DW7221252O212A22A13521AA34W2O3R022E2W5J16135WJ826" ++
        "2DW7WE5171323P344G5D22362F2W921613h5243721243WA243W2243721243F2WQ243X56T4Q7XO363qI4" ++
        "XR8IEJ42AIFD23GWL318822C94A7A7B6A7XR853W3216X8BW054335226814WB35CWD5Q7B4WQ324WP21A1" ++
        "2296EA7A7EXPWHB4482TAC3W1527WP213321EWH926F4X06WC3BC1E1842623316b6X3dU363W73638032W" ++
        "03WM2F2E362J33292B6O8WIH23R2D4W2X2ZG5qFNBMWwE3W12g3426WE21613WP82GNA727272727272727" ++
        "W3Y1W4Q2XRDbSRWR7G2XO5Y86WC2Y12XOAWH2zjT4WOAg7LWG51BW13XI369bK322128MG23242P355A7WP" ++
        "9X6BCPD2W79PC1DU7WH2252322D2B572P2WA7232C328213A3W12WK2142353121PH38C63636A7272WT5Y" ++
        "O22244A7goCDN5WIdtLgP3YDW87D5612O252122222Z1HjB3WN81W2GHANW42J24552ZB5a23W046363633" ++
        "4727E23C2Q2J222F3EW4YU635WE4XQ2D41WHWEZ8T4WIHR5W5AU6W7BU2W65EWCa33A7W55W55W99WLCC2F" ++
        "27222B2F27224WLDf1AMB8P62WB29X86312WD22413N2XA99WIJ226W24R61X3WP5K3WGG4232TB9898X2W" ++
        "2W67CAWN4T3R6Q84D7XJXBWPWKEWK8WBDA7W79O92bNW02WB4132H3WTW99MC9NI54W8SLNA12WNG75U223" ++
        "1DWI523224FP8AAW561AI9W423CWLA128522G2KCI2S425622X2721242F2B7WG23EA9228323M27222541" ++
        "2124323241D7TA21312W72122G122412322W9WP92412L2123W0WH2271222131349AaCWG2274313RW6WK" ++
        "922134CA7DKWC2122927A7KTR412251ANb0WGA131Y8XLD83138222O25227423AAX983WB9424S1BW9725" ++
        "8A1724WFE139EXB8AaSW3FA792W7F126BT4W1Q18131XE7222W7M1AA76222W652028Af1J34AF2W5924NX" ++
        "P1GWJEyOYAYI25CbAXs2Y6EWYII6QZZR6nPcYMUD34AWtUnB8W02A5XJ2A7U81BWH8FBA272L6JiUWRbDXT" ++
        "Y9XD6WPCDX34TbgT9WdTWBAee8427222eCG1U331F49hOXhFYE6D498A3131ZY0d27j2a2YNWUcTBW83WT6" ++
        "3N28U5WUMX441YUKDKDXPAPZCXN2X9223132342C21272X32438272S242521472fU3eD3n4WP4WK82E27W" ++
        "aPW076dEX0ZNWEB73A52fBUJWD5A61k0S5AbTU3B51kG724222F2bB39WIX6815A52uBX6XFWUb942R2221" ++
        "312A24027151022322213104222134272424212A2H63252HWM2dNWD5Y7DF3F2F2W6BaJWQTEWD5982F6a" ++
        "0WVN5H4D4YQ5Y27C51GC5WP9A7W99U3C52X1fUDE3D4A6WP8F3B798ZN2Y9WX8Wij2W2Zf07c53azRFct2G" ++
        "p2XmImFWmJaZA6Zg7")⟩,
    ⟨["graphemeextend", "grext"], .unpack
      ("tPYJdS7dGWE21222221XBBWILH1Y97363224W51W0RXUBWS9A1P4292325WD3WT9WCO2W1WP121585147B2" ++
        "U1WS1213491A1B2R132WR152523341W0241C2WR1552251L2N621WS122249183B2W01WT121D1A1WA141W" ++
        "P123632482C2U1WS13221432482C2T2WR2213491A1B2U1XB151332191XK137D8Y6139C7XC2S102WPE25" ++
        "226B2W5A1YA4262232Q253H4E13271G1rM3zH4T3U2W02X3227913BA1WF321YP2W41YQ352A173c3231WS" ++
        "12702387A31WIW0WJ4WIA53W89D2W2436WQ1224125WQ832ZT32D27517142bDX2lT1bAW2Yb23ZI1Y4W1m" ++
        "S6YD2WVh242AW22XJ2dP14151Q261ZS2RIE1W88QB21WE3WI1343231W61X663232D191WH1WL123326221" ++
        "WC291cM13151qXU1sPGHGgQ2oH1cA1ZQ5WrS32264WA351aB2nG4X45f82XI4X9BWJ4Z01WOFWB132B3WJ4" ++
        "3281X03W6528X11D2WM9219431Y33347131a3148M2WR202D1A1F745X61362131235321F2XO83321O1XK" ++
        "13621312222cJ1347222S2XO83122YE12138Y91213425dC922cT1B451ZL43251W2AWA63491A633WGD22" ++
        "i472621XLM372222YU641222721XB24121g72C2WM563O1amI17FgxQC43XnH5WT7WXQ1X24XK1C2pi52Zw" ++
        "PWF3NmG5469837W04ZP3XWRWO5WJ91F1N52FWhS72H372225Y81a67h41X04lD4d72sO7YH7vniBY3Z5cN")⟩,
    ⟨["hexdigit", "hex"], .unpack "WIA86R6Xav1A86R6"⟩,
    ⟨["idsbinaryoperator", "idsb"], .unpack "hsS23Al21"⟩,
    ⟨["idstrinaryoperator", "idst"], .unpack "hsU2"⟩,
    ⟨["idcontinue", "idc"], .unpack
      ("WIA8Q512QWH1B121316N2W02jO5CF58121IYO22342175212K2XL2ZF253aB2W7317WA9WE212222219R54" ++
        "UB6XC5Y9283A2J31HWS3Y8FWN51313WFJS5B6O269XD2Z53A2J28323M2721443932349152253CB121332" ++
        "6523M27222222312552334184218GC329232M2722253A232331G43AA72328323M272225393233835225" ++
        "3A21H226432442212242434C5543243171FAHD232N2G392324822331343AH428232N2A2539232482722" ++
        "43A23DD232WK232564853AB6232I4O292137415621287A32EWR6F2AW9221252O212N3521272A34W21O2" ++
        "7AC1025A2W55K2I2W5A1WRXC7XG3W721613WC2fN243721243WA243W2243721243F2WQ243X533A9FGHXO" ++
        "364p03H2Q6XD4B8MAMCKDD2322DXM41523AW332B7XR8WC6X8BW02C5CBW935CWD5Q7BW7S5X12T3B7AE19" ++
        "E2GWJXF4AI9DYNDWP9A4WI3B6WC33H32W86m7363W73638032W03WM2721432744365D6327G2WJ2K1T1E1" ++
        "HDWLD514CI1513A213671022G346551IWAXtEcC79DW721613WP81GOA7272727272727272W1lM3QF2535" ++
        "5XO372Y26WC2Y1IW1WIGlHbvKX3sWNX6WF3dL4SLWH5A2YMW793YA3X5322128MWN51KWLDX8BA7O412WI3" ++
        "W5DT4X3FB7W02WOAE3A7N4XBP33G35B63636A7272WC2E7YU223A7goCDN5WIdtLgP3YDW87D56C2D25212" ++
        "2222YFW3gMJX23WNWAC5GHG42P3W252ZBKA8Q512QBXS46363633W5C2Q2J222F3EW4YUX8WMZD1Z7T4WIG" ++
        "1W1W1EU6WC6U3W55825WCa33A7W55W55W99WLDB2F27222B2F27224WLDf1AMB8P62WB29X86312WD22413" ++
        "NBNAW0X4J22BMBQX9WP72X342268232T3351W2T4TW582UQWNBMBJEIYIXBWPWKEWKEW99A7W7452Nd3WB2" ++
        "242H3WPW2B19W2W1MWCLSNAX9W1GAWT81EP8A7WM2A549W531AX7542D21W5I2W674X1721242F2A8WS6A7" ++
        "428323M2722252A32333171673745CA21312W72A21312428E2UXD6A54W0X8219AaCWN39O6W4X341CAW8" ++
        "WQ8A7KTR3F5A77b0WSY9XCM83138222U2239DAX983WF3822SX1919XC41JXBbEW2GA792WE29GAPU3M2EX" ++
        "C7222WD4122299A76222W622268Af1NAH2WA45EBXO1XIyNYAYIIbAXs2Y4GWYIHMBZZR6nPcYMWRWtUnB8" ++
        "W02A7XH2A7U35CWOA4DAAL6JiUWE4AbDX2Z5XD5WQ8HX3222C2FbgT9WdTWBAee8427222eCG1U331F49hO" ++
        "XhFYE6D498A42ZfOAlNWF3NmG5469837W04ZP3jAXN2X9223132342C21272X32438272S242521472fU3P" ++
        "2P2W02P2W02P2W02P2W02P283WJlHWO5WJ91F1N52FWZKW076bS72H3722256X0W31YKWE4E3A51fCW0IWR" ++
        "k6WBbTWCkL724222F2bBC7WBXE5AWcD42R2221312A24027151022322213104222134272424212A2H632" ++
        "52HYl2AWX8Wij2W2Zf07c53azRFct2Gp2XmImFWmJaZA6Zg7swx9cN")⟩,
    ⟨["idstart", "ids"], .unpack
      ("X4Q7QWH1B1516N2W02jO5CF58121Z652234217123212K2XL2ZF9aB2W7317WAXAR54WFWCW522Y621G282" ++
        "B331H12UUXRC1PW2A2516M51A141OP8B6O26IWBWSWN41J18AGG58323M27214441H1E223F2B196523M27" ++
        "222222W1421K3H9232M27222541J1G2O1C8323M27222541W0223G1I126432442212242434CN1WM8232N" ++
        "2G41R33132W0158232N2A2541W1222G2I9232WA31H16393P66I4O292137WSWH22D7WS221252O212A22A" ++
        "13521M4W21X282W5S5YNWCL1H6544142835DD1IW721613WC2fN243721243WA243W2243721243F2WQ243" ++
        "X5W7GHXO364p03H2Q6XD4B8IEJFIFD23GWLW5151X6XR8WA216X8BW0WJU35CWD5QWONAWMXL1Y1WGI8WOU" ++
        "E2BWDRW5WB3BW53B6WC33WB42622416b6X3dU363W73638032W03WM2721432744365D6327YO1E1HDY915" ++
        "13A213671022G346551IWAXtEcC7442DW721613WP81HNA727272727272727mO3Q985355XO552XS246WC" ++
        "2Y1IW1WIGlHbvKX3sWNX6WF3dL4GB2LWGHW03XIW993YA3X5322128MG23242NUWLFWJX164122CSBNQT8W" ++
        "GT1H52AB52WAO328LN414WJ2142353121P33B83D63636A7272WC2E7YMUgoCDN5WIdtLgP3YDW87D5612A" ++
        "2D252122222YFW3gMJX23WNWACYO52ZBW6Q7QCXR46363633W5C2Q2J222F3EW4YUX8WMdKT4WIWHW1EU6W" ++
        "7BU3W55825WCa3JW55W55W99WLDB2F27222B2F27224WLDf1AMB8P62WB29X86312WD22413NBNAW0X4J22" ++
        "BMBQX9WP72X31G4232TWCT4TW582SSWNBMBJEIYIXBWPWKEWKEW5W8SANd3WB72H3WTTB19MWCIWGLSNDWM" ++
        "WR231EWEW2PRW5U1319W441DWHF4M121W5I2PK2X2721242F2A8WGW88323M27222541J1D5W0A21312W72" ++
        "1Q121WEWMJ4L3W0WHL221aUWGWB4W6WHL1WTWCE1XARW77b0WDYOX2W183138222OG121Y283W8H121T1BW" ++
        "981M1CWFK1JXBbEW2W192W6I1WJUYK7222W7M1Q6222W1F1fIJG12D2W3Z11XIyNYAYIIbAXs2Y4GWYII6Q" ++
        "ZZR6nPcYMUWuRnB8W0IXHIUJWHH4W1L6JiUWEbQX2Z5XD61X5DX3221TbgT9WdTWBAee8427222eCG1U331" ++
        "F49hOXhFYE6D498Abc8XN2X9223132342C21272X32438272S242521472fU3P2P2W02P2W02P2W02P2W02" ++
        "P28WxGW076dEX0ZNWEB7H1fCUJWDkKScCU31l0724222F2bBWTX681WcR42R2221312A240271510223222" ++
        "13104222134272424212A2H63252HZnJWij2W2Zf07c53azRFct2Gp2XmImFWmJaZA6Zg7")⟩,
    ⟨["ideographic", "ideo"], .unpack
      ("htJ2Q9F3WV5bvKX3qv5sr0gP3YDWVaH1SbgT9WdTWBAeqKhOpl1Wij2W2Zf07c53azRFct2Gp2XmImFWmJa" ++
        "ZA6Zg7")⟩,
    ⟨["logicalorderexception", "loe"], .unpack "YtM5Z05XxB331Wco823122"⟩,
    ⟨["lowercase", "lower"], .unpack
      ("Y5QWH1B151W6O280R2207220N3121233121314251314331310231222131412132337131310722082231" ++
        "21410S2731322151032X72W582W05Y41WD1214134J1SW422430B25213132WLWH0HA10Q3105220WHWIWA" ++
        "YV5WC24tH6Xd9921YPb6X410XB290WH2996B89896B8989E3898989522714322943298B322YT1E1HDYH1" ++
        "4241S15151329451W3G51w7QWy3WH214203512228410WH22812151DW72161WWcR10MK10C23ZA105230U" ++
        "2A023104512131230A6161075121314105N32123vGWC2E7XIqYF7D5WYCQWdLW9ZDW5a1B2F2722jI1332" ++
        "WB29WfFWKZ2MXzNW1rt3W1wX2QR72IRQR421272BRQRQRQRQRQRQRQRQRSTP26RP26RP26RP26RP2621WxG" ++
        "A2K76dEX0XeSW3")⟩,
    ⟨["math"], .unpack
      ("WD1H3W11U121WF151W71W11sG331R233m13by51S3C141E1F4M5C5X4D514255J1513A213671423223264" ++
        "E21X7O2622525W12172FdK94L2XT1W0R21P1C7jC2DA56523245F12136C862WR121U4A3fRX2d9lGWIL36" ++
        "WtgH1vI621a81H3U121U121Z8174YoI2WqvNXN2X9223132342C21272X32438272S242521472fU3eD3WJ" ++
        "avM42R2221312A24027151022322213104222134272424212A2H63252HWM2")⟩,
    ⟨["noncharactercodepoint", "nchar"], .unpack
      ("Xao1W1m02Xbb12Xbb12Xbb12Xbb12Xbb12Xbb12Xbb12Xbb12Xbb12Xbb12Xbb12Xbb12Xbb12Xbb12Xbb1" ++
        "2Xbb12")⟩,
    ⟨["patternsyntax", "patsyn"], .unpack
      "W3FB7R421R4W4721222122515141O1W11ddPO9F3J2AeRs7a6pAW0WaGlHZ4hE35PG1WsoB2dE2"⟩,
    ⟨["patternwhitespace", "patws"], .unpack "A5J1Y81dhD2P2"⟩,
    ⟨["quotationmark", "qmark"], .unpack "W4151Z81G1dg08Q2YrR1jO4E3Wsx84b4151XT2"⟩,
    ⟨["radical"], .unpack "hh1Q2XRDbS"⟩,
    ⟨["regionalindicator", "ri"], .unpack "ZdoMQ"⟩,
    ⟨["sentenceterminal", "sterm"], .unpack
      ("W31D1H1WhL1ZO3aQ1WD3cU1X012142eF2WuT2uG152tU1bD2a32WF161f52gE4a82B232U3b22X42z31O2A" ++
        "3YgO3eS1E1N2iR1WVa31dN2cB141hB2XP2Y31ZT2ZO3ZL2d21qwD132WT142aF1D1H1X41XxF2Wf75WE4b4" ++
        "2YP4Z43Z6271H2XR222YG1eK2YP2h226FYD2d23lM121d42XQ2iI2rB2XD2pVM2ZA1X42C1mR2eI1ptB1cz01")⟩,
    ⟨["softdotted", "sd"], .unpack
      ("YD2bB1e31W01WM1L1fB1Y6121bpO1WL1E141Z91a31iJ1bT2XzF1YovG2WK2WK2WK2WK2WK2WK2WK2WK2WK" ++
        "2WK2WK2WK2XdD1eR2R1")⟩,
    ⟨["terminalpunctuation", "term"], .unpack
      ("W31B121C241vP191lI1WR1XB1F123aQ1WDB21cJ2WO628W11dE2WeT2aI156f22uF8tU1Z13XA2a3341W94" ++
        "32f52gE4a82B223U3b25X12z31O2A3YgO3eS1E151B12242iQ2WVa22dM3cB5hB2XP2Y31ZS3ZO3Z41H2d2" ++
        "1qwD132WR324aF1B121C241X4131WYT1WI1WbC1bE1f12ZT6X76XS4zN5WE4b47YK4Z43Z6271H2XR5YG1e" ++
        "K2YP3D2gI44FYD2d23lM121d42XQ252iC3WF1pQ2XD2WgM5noR2ZA1X43B1mR2eH2ptB1cyU4")⟩,
    ⟨["unifiedideograph", "uideo"], .unpack
      "ivEbvKX3qv5szM22122B1212233Xcs9Wij2W2Zf07c53azRFct2Gp2ZqKaZA6Zg7"⟩,
    ⟨["uppercase", "upper"], .unpack
      ("X4QY9N27W310R3107310M2202422122233422234222022221312223212241813131310731083131230T" ++
        "8222312404eB1214191712321222H29W5133410B6131223WKWI10GA10Q2206310WG3W7YV7W72161sAXO" ++
        "XdQ17WC33fB10XCA10WHA896B89896C10398XB4D4D4D5C4dF1514333314571022434B261RGK1vDQWxCW" ++
        "HWI1233102242131930WI912151WWeN10MK10DZC106410UB12122045121312141092525072421224161" ++
        "03P1sbRQWdDW9ZDW5a2B2F2722Wv4WKa3MXzNW1rt3W1wX8QRQRQR12231323428RQR2243827S22425214" ++
        "7SQRQRQRQRQRQW0PW3PW3PW3PW3PW31Zn4W3XZHQ7Q7Q")⟩,
    ⟨["variationselector", "vs"], .unpack "bhI321WzcRGxof4cN"⟩,
    ⟨["xidcontinue", "xidc"], .unpack
      ("WIA8Q512QWH1B121316N2W02jO5CF58121IYO22432175212K2XL2ZF253aB2W7317WA9WE212222219R54" ++
        "UB6XC5Y9283A2J31HWS3Y8FWN51313WFJS5B6O269XD2Z53A2J28323M2721443932349152253CB121332" ++
        "6523M27222222312552334184218GC329232M2722253A232331G43AA72328323M272225393233835225" ++
        "3A21H226432442212242434C5543243171FAHD232N2G392324822331343AH428232N2A2539232482722" ++
        "43A23DD232WK232564853AB6232I4O292137415621287A32EWR6F2AW9221252O212N3521272A34W21O2" ++
        "7AC1025A2W55K2I2W5A1WRXC7XG3W721613WC2fN243721243WA243W2243721243F2WQ243X533A9FGHXO" ++
        "364p03H2Q6XD4B8MAMCKDD2322DXM41523AW332B7XR8WC6X8BW02C5CBW935CWD5Q7BW7S5X12T3B7AE19" ++
        "E2GWJXF4AI9DYNDWP9A4WI3B6WC33H32W86m7363W73638032W03WM2721432744365D6327G2WJ2K1T1E1" ++
        "HDWLD514CI1513A213671022G346551IWAXtEcC79DW721613WP81GOA7272727272727272W1lM3QF2535" ++
        "5XO32332Y26WC2Y1IW1WIGlHbvKX3sWNX6WF3dL4SLWH5A2YMW793YA3X5322128MWN51KWLDX8BA7O412W" ++
        "I3W5DT4X3FB7W02WOAE3A7N4XBP33G35B63636A7272WC2E7YU223A7goCDN5WIdtLgP3YDW87D56C2D252" ++
        "122222YFW3ZF7c1JX23WNWAA7GHG42P3W312141032Z2KA8Q512QBXS46363633W5C2Q2J222F3EW4YUX8W" ++
        "MZD1Z7T4WIG1W1W1EU6WC6U3W55825WCa33A7W55W55W99WLDB2F27222B2F27224WLDf1AMB8P62WB29X8" ++
        "6312WD22413NBNAW0X4J22BMBQX9WP72X342268232T3351W2T4TW582UQWNBMBJEIYIXBWPWKEWKEW99A7" ++
        "W7452Nd3WB2242H3WPW2B19W2W1MWCLSNAX9W1GAWT81EP8A7WM2A549W531AX7542D21W5I2W674X17212" ++
        "42F2A8WS6A7428323M2722252A32333171673745CA21312W72A21312428E2UXD6A54W0X8219AaCWN39O" ++
        "6W4X341CAW8WQ8A7KTR3F5A77b0WSY9XCM83138222U2239DAX983WF3822SX1919XC41JXBbEW2GA792WE" ++
        "29GAPU3M2EXC7222WD4122299A76222W622268Af1NAH2WA45EBXO1XIyNYAYIIbAXs2Y4GWYIHMBZZR6nP" ++
        "cYMWRWtUnB8W02A7XH2A7U35CWOA4DAAL6JiUWE4AbDX2Z5XD5WQ8HX3222C2FbgT9WdTWBAee8427222eC" ++
        "G1U331F49hOXhFYE6D498A42ZfOAlNWF3NmG5469837W04ZP3jAXN2X9223132342C21272X32438272S24" ++
        "2521472fU3P2P2W02P2W02P2W02P2W02P283WJlHWO5WJ91F1N52FWZKW076bS72H3722256X0W31YKWE4E" ++
        "3A51fCW0IWRk6WBbTWCkL724222F2bBC7WBXE5AWcD42R2221312A240271510223222131042221342724" ++
        "24212A2H63252HYl2AWX8Wij2W2Zf07c53azRFct2Gp2XmImFWmJaZA6Zg7swx9cN")⟩,
    ⟨["xidstart", "xids"], .unpack
      ("X4Q7QWH1B1516N2W02jO5CF58121Z652243217123212K2XL2ZF9aB2W7317WAXAR54WFWCW522Y621G282" ++
        "B331H12UUXRC1PW2A2516M51A141OP8B6O26IWBWSWN41J18AGG58323M27214441H1E223F2B196523M27" ++
        "222222W1421K3H9232M27222541J1G2O1C8323M27222541W0223G1I126432442212242434CN1WM8232N" ++
        "2G41R33132W0158232N2A2541W1222G2I9232WA31H16393P66I4O292137WSWH21E7WS221252O212A21B" ++
        "13521M4W21X282W5S5YNWCL1H6544142835DD1IW721613WC2fN243721243WA243W2243721243F2WQ243" ++
        "X5W7GHXO364p03H2Q6XD4B8IEJFIFD23GWLW5151X6XR8WA216X8BW0WJU35CWD5QWONAWMXL1Y1WGI8WOU" ++
        "E2BWDRW5WB3BW53B6WC33WB42622416b6X3dU363W73638032W03WM2721432744365D6327YO1E1HDY915" ++
        "13A213671022G346551IWAXtEcC7442DW721613WP81HNA727272727272727mO3Q985355XO732XS246WC" ++
        "2Y1IW1WIGlHbvKX3sWNX6WF3dL4GB2LWGHW03XIW993YA3X5322128MG23242NUWLFWJX164122CSBNQT8W" ++
        "GT1H52AB52WAO328LN414WJ2142353121P33B83D63636A7272WC2E7YMUgoCDN5WIdtLgP3YDW87D5612A" ++
        "2D252122222YFW3ZF7c1JX23WNWAAYR12141032Z2W6Q7QCWP3W046363633W5C2Q2J222F3EW4YUX8WMdK" ++
        "T4WIWHW1EU6W7BU3W55825WCa3JW55W55W99WLDB2F27222B2F27224WLDf1AMB8P62WB29X86312WD2241" ++
        "3NBNAW0X4J22BMBQX9WP72X31G4232TWCT4TW582SSWNBMBJEIYIXBWPWKEWKEW5W8SANd3WB72H3WTTB19" ++
        "MWCIWGLSNDWMWR231EWEW2PRW5U1319W441DWHF4M121W5I2PK2X2721242F2A8WGW88323M27222541J1D" ++
        "5W0A21312W721Q121WEWMJ4L3W0WHL221aUWGWB4W6WHL1WTWCE1XARW77b0WDYOX2W183138222OG121Y2" ++
        "83W8H121T1BW981M1CWFK1JXBbEW2W192W6I1WJUYK7222W7M1Q6222W1F1fIJG12D2W3Z11XIyNYAYIIbA" ++
        "Xs2Y4GWYII6QZZR6nPcYMUWuRnB8W0IXHIUJWHH4W1L6JiUWEbQX2Z5XD61X5DX3221TbgT9WdTWBAee842" ++
        "7222eCG1U331F49hOXhFYE6D498Abc8XN2X9223132342C21272X32438272S242521472fU3P2P2W02P2W" ++
        "02P2W02P2W02P28WxGW076dEX0ZNWEB7H1fCUJWDkKScCU31l0724222F2bBWTX681WcR42R2221312A240" ++
        "27151022322213104222134272424212A2H63252HZnJWij2W2Zf07c53azRFct2Gp2XmImFWmJaZA6Zg7")⟩,
    ⟨["hyphen"], .unpack "WF1Z41We51ZxK1XZC2YrP1sR1Wsr81aF1XQ1"⟩]

end Trait

end LiveDoc.Text
