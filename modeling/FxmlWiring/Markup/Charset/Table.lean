/-! # Tables of single-byte charsets

The **upper half** of a charset gives the characters of the bytes 0x80 to 0xFF in rows of eight;
U+FFFD stands where a byte has no character. The lower half of each is ASCII. -/

namespace FxmlWiring.Markup.Charset

/-- Charsets with their upper halves. -/
def upperHalves : List (String × List String) := [
  ("cp1006",
   ["\u0080\u0081\u0082\u0083\u0084\u0085\u0086\u0087",
    "\u0088\u0089\u008a\u008b\u008c\u008d\u008e\u008f",
    "\u0090\u0091\u0092\u0093\u0094\u0095\u0096\u0097",
    "\u0098\u0099\u009a\u009b\u009c\u009d\u009e\u009f", "\u00a0۰۱۲۳۴۵۶",
    "۷۸۹،\u061b\u00ad\u061f\ufe81", "\ufe8d\ufe8e\ufe8e\ufe8f\ufe91\ufb56\ufb58\ufe93",
    "\ufe95\ufe97\ufb66\ufb68\ufe99\ufe9b\ufe9d\ufe9f",
    "\ufb7a\ufb7c\ufea1\ufea3\ufea5\ufea7\ufea9\ufb84",
    "\ufeab\ufead\ufb8c\ufeaf\ufb8a\ufeb1\ufeb3\ufeb5",
    "\ufeb7\ufeb9\ufebb\ufebd\ufebf\ufec1\ufec5\ufec9",
    "\ufeca\ufecb\ufecc\ufecd\ufece\ufecf\ufed0\ufed1",
    "\ufed3\ufed5\ufed7\ufed9\ufedb\ufb92\ufb94\ufedd",
    "\ufedf\ufee0\ufee1\ufee3\ufb9e\ufee5\ufee7\ufe85",
    "\ufeed\ufba6\ufba8\ufba9\ufbaa\ufe80\ufe89\ufe8a",
    "\ufe8b\ufef1\ufef2\ufef3\ufbb0\ufbae\ufe7c\ufe7d"]),
  ("cp1125",
   ["АБВГДЕЖЗ", "ИЙКЛМНОП", "РСТУФХЦЧ", "ШЩЪЫЬЭЮЯ", "абвгдежз", "ийклмноп", "░▒▓│┤╡╢╖", "╕╣║╗╝╜╛┐",
    "└┴┬├─┼╞╟", "╚╔╩╦╠═╬╧", "╨╤╥╙╘╒╓╫", "╪┘┌█▄▌▐▀", "рстуфхцч", "шщъыьэюя", "ЁёҐґЄєІі",
    "Її·√№¤■\u00a0"]),
  ("cp1250",
   ["€\ufffd‚\ufffd„…†‡", "\ufffd‰Š‹ŚŤŽŹ", "\ufffd\u2018\u2019\u201c\u201d•–—", "\ufffd™š›śťžź",
    "\u00a0\u02c7\u02d8Ł¤Ą¦§", "\u00a8©Ş«¬\u00ad®Ż", "°±\u02dbł\u00b4µ¶·", "\u00b8ąş»Ľ\u02ddľż",
    "ŔÁÂĂÄĹĆÇ", "ČÉĘËĚÍÎĎ", "ĐŃŇÓÔŐÖ×", "ŘŮÚŰÜÝŢß", "ŕáâăäĺćç", "čéęëěíîď", "đńňóôőö÷",
    "řůúűüýţ\u02d9"]),
  ("cp1251",
   ["ЂЃ‚ѓ„…†‡", "€‰Љ‹ЊЌЋЏ", "ђ\u2018\u2019\u201c\u201d•–—", "\ufffd™љ›њќћџ", "\u00a0ЎўЈ¤Ґ¦§",
    "Ё©Є«¬\u00ad®Ї", "°±Ііґµ¶·", "ё№є»јЅѕї", "АБВГДЕЖЗ", "ИЙКЛМНОП", "РСТУФХЦЧ", "ШЩЪЫЬЭЮЯ",
    "абвгдежз", "ийклмноп", "рстуфхцч", "шщъыьэюя"]),
  ("cp1252",
   ["€\ufffd‚ƒ„…†‡", "\u02c6‰Š‹Œ\ufffdŽ\ufffd", "\ufffd\u2018\u2019\u201c\u201d•–—",
    "\u02dc™š›œ\ufffdžŸ", "\u00a0¡¢£¤¥¦§", "\u00a8©ª«¬\u00ad®\u00af", "°±²³\u00b4µ¶·",
    "\u00b8¹º»¼½¾¿", "ÀÁÂÃÄÅÆÇ", "ÈÉÊËÌÍÎÏ", "ÐÑÒÓÔÕÖ×", "ØÙÚÛÜÝÞß", "àáâãäåæç", "èéêëìíîï",
    "ðñòóôõö÷", "øùúûüýþÿ"]),
  ("cp1253",
   ["€\ufffd‚ƒ„…†‡", "\ufffd‰\ufffd‹\ufffd\ufffd\ufffd\ufffd", "\ufffd\u2018\u2019\u201c\u201d•–—",
    "\ufffd™\ufffd›\ufffd\ufffd\ufffd\ufffd", "\u00a0\u0385Ά£¤¥¦§", "\u00a8©\ufffd«¬\u00ad®―",
    "°±²³\u0384µ¶·", "ΈΉΊ»Ό½ΎΏ", "ΐΑΒΓΔΕΖΗ", "ΘΙΚΛΜΝΞΟ", "ΠΡ\ufffdΣΤΥΦΧ", "ΨΩΪΫάέήί", "ΰαβγδεζη",
    "θικλμνξο", "πρςστυφχ", "ψωϊϋόύώ\ufffd"]),
  ("cp1254",
   ["€\ufffd‚ƒ„…†‡", "\u02c6‰Š‹Œ\ufffd\ufffd\ufffd", "\ufffd\u2018\u2019\u201c\u201d•–—",
    "\u02dc™š›œ\ufffd\ufffdŸ", "\u00a0¡¢£¤¥¦§", "\u00a8©ª«¬\u00ad®\u00af", "°±²³\u00b4µ¶·",
    "\u00b8¹º»¼½¾¿", "ÀÁÂÃÄÅÆÇ", "ÈÉÊËÌÍÎÏ", "ĞÑÒÓÔÕÖ×", "ØÙÚÛÜİŞß", "àáâãäåæç", "èéêëìíîï",
    "ğñòóôõö÷", "øùúûüışÿ"]),
  ("cp1255",
   ["€\ufffd‚ƒ„…†‡", "\u02c6‰\ufffd‹\ufffd\ufffd\ufffd\ufffd", "\ufffd\u2018\u2019\u201c\u201d•–—",
    "\u02dc™\ufffd›\ufffd\ufffd\ufffd\ufffd", "\u00a0¡¢£₪¥¦§", "\u00a8©×«¬\u00ad®\u00af",
    "°±²³\u00b4µ¶·", "\u00b8¹÷»¼½¾¿", "\u05b0\u05b1\u05b2\u05b3\u05b4\u05b5\u05b6\u05b7",
    "\u05b8\u05b9\ufffd\u05bb\u05bc\u05bd\u05be\u05bf",
    "\u05c0\u05c1\u05c2\u05c3\u05f0\u05f1\u05f2\u05f3",
    "\u05f4\ufffd\ufffd\ufffd\ufffd\ufffd\ufffd\ufffd",
    "\u05d0\u05d1\u05d2\u05d3\u05d4\u05d5\u05d6\u05d7",
    "\u05d8\u05d9\u05da\u05db\u05dc\u05dd\u05de\u05df",
    "\u05e0\u05e1\u05e2\u05e3\u05e4\u05e5\u05e6\u05e7",
    "\u05e8\u05e9\u05ea\ufffd\ufffd\u200e\u200f\ufffd"]),
  ("cp1256",
   ["€\u067e‚ƒ„…†‡", "\u02c6‰\u0679‹Œ\u0686\u0698\u0688", "\u06af\u2018\u2019\u201c\u201d•–—",
    "\u06a9™\u0691›œ\u200c\u200d\u06ba", "\u00a0،¢£¤¥¦§", "\u00a8©\u06be«¬\u00ad®\u00af",
    "°±²³\u00b4µ¶·", "\u00b8¹\u061b»¼½¾\u061f", "\u06c1\u0621\u0622\u0623\u0624\u0625\u0626\u0627",
    "\u0628\u0629\u062a\u062b\u062c\u062d\u062e\u062f",
    "\u0630\u0631\u0632\u0633\u0634\u0635\u0636×",
    "\u0637\u0638\u0639\u063a\u0640\u0641\u0642\u0643", "à\u0644â\u0645\u0646\u0647\u0648ç",
    "èéêë\u0649\u064aîï", "\u064b\u064c\u064d\u064eô\u064f\u0650÷",
    "\u0651ù\u0652ûü\u200e\u200f\u06d2"]),
  ("cp1257",
   ["€\ufffd‚\ufffd„…†‡", "\ufffd‰\ufffd‹\ufffd\u00a8\u02c7\u00b8",
    "\ufffd\u2018\u2019\u201c\u201d•–—", "\ufffd™\ufffd›\ufffd\u00af\u02db\ufffd",
    "\u00a0\ufffd¢£¤\ufffd¦§", "Ø©Ŗ«¬\u00ad®Æ", "°±²³\u00b4µ¶·", "ø¹ŗ»¼½¾æ", "ĄĮĀĆÄÅĘĒ",
    "ČÉŹĖĢĶĪĻ", "ŠŃŅÓŌÕÖ×", "ŲŁŚŪÜŻŽß", "ąįāćäåęē", "čéźėģķīļ", "šńņóōõö÷", "ųłśūüżž\u02d9"]),
  ("cp1258",
   ["€\ufffd‚ƒ„…†‡", "\u02c6‰\ufffd‹Œ\ufffd\ufffd\ufffd", "\ufffd\u2018\u2019\u201c\u201d•–—",
    "\u02dc™\ufffd›œ\ufffd\ufffdŸ", "\u00a0¡¢£¤¥¦§", "\u00a8©ª«¬\u00ad®\u00af", "°±²³\u00b4µ¶·",
    "\u00b8¹º»¼½¾¿", "ÀÁÂĂÄÅÆÇ", "ÈÉÊË\u0300ÍÎÏ", "ĐÑ\u0309ÓÔƠÖ×", "ØÙÚÛÜƯ\u0303ß", "àáâăäåæç",
    "èéêë\u0301íîï", "đñ\u0323óôơö÷", "øùúûüư₫ÿ"]),
  ("cp437",
   ["Çüéâäàåç", "êëèïîìÄÅ", "ÉæÆôöòûù", "ÿÖÜ¢£¥₧ƒ", "áíóúñÑªº", "¿⌐¬½¼¡«»", "░▒▓│┤╡╢╖", "╕╣║╗╝╜╛┐",
    "└┴┬├─┼╞╟", "╚╔╩╦╠═╬╧", "╨╤╥╙╘╒╓╫", "╪┘┌█▄▌▐▀", "αßΓπΣσµτ", "ΦΘΩδ∞φε∩", "≡±≥≤⌠⌡÷≈",
    "°∙·√\u207f²■\u00a0"]),
  ("cp720",
   ["\u0080\u0081éâ\u0084à\u0086ç", "êëèïî\u008d\u008e\u008f", "\u0090\u0651\u0652ô¤\u0640ûù",
    "\u0621\u0622\u0623\u0624£\u0625\u0626\u0627",
    "\u0628\u0629\u062a\u062b\u062c\u062d\u062e\u062f", "\u0630\u0631\u0632\u0633\u0634\u0635«»",
    "░▒▓│┤╡╢╖", "╕╣║╗╝╜╛┐", "└┴┬├─┼╞╟", "╚╔╩╦╠═╬╧", "╨╤╥╙╘╒╓╫", "╪┘┌█▄▌▐▀",
    "\u0636\u0637\u0638\u0639\u063a\u0641µ\u0642",
    "\u0643\u0644\u0645\u0646\u0647\u0648\u0649\u064a", "≡\u064b\u064c\u064d\u064e\u064f\u0650≈",
    "°∙·√\u207f²■\u00a0"]),
  ("cp737",
   ["ΑΒΓΔΕΖΗΘ", "ΙΚΛΜΝΞΟΠ", "ΡΣΤΥΦΧΨΩ", "αβγδεζηθ", "ικλμνξοπ", "ρσςτυφχψ", "░▒▓│┤╡╢╖", "╕╣║╗╝╜╛┐",
    "└┴┬├─┼╞╟", "╚╔╩╦╠═╬╧", "╨╤╥╙╘╒╓╫", "╪┘┌█▄▌▐▀", "ωάέήϊίόύ", "ϋώΆΈΉΊΌΎ", "Ώ±≥≤ΪΫ÷≈",
    "°∙·√\u207f²■\u00a0"]),
  ("cp775",
   ["Ćüéāäģåć", "łēŖŗīŹÄÅ", "ÉæÆōöĢ¢Ś", "śÖÜø£Ø×¤", "ĀĪóŻżź\u201d¦", "©®¬½¼Ł«»", "░▒▓│┤ĄČĘ",
    "Ė╣║╗╝ĮŠ┐", "└┴┬├─┼ŲŪ", "╚╔╩╦╠═╬Ž", "ąčęėįšųū", "ž┘┌█▄▌▐▀", "ÓßŌŃõÕµń", "ĶķĻļņĒŅ\u2019",
    "\u00ad±\u201c¾¶§÷„", "°∙·¹³²■\u00a0"]),
  ("cp850",
   ["Çüéâäàåç", "êëèïîìÄÅ", "ÉæÆôöòûù", "ÿÖÜø£Ø×ƒ", "áíóúñÑªº", "¿®¬½¼¡«»", "░▒▓│┤ÁÂÀ", "©╣║╗╝¢¥┐",
    "└┴┬├─┼ãÃ", "╚╔╩╦╠═╬¤", "ðÐÊËÈıÍÎ", "Ï┘┌█▄¦Ì▀", "ÓßÔÒõÕµþ", "ÞÚÛÙýÝ\u00af\u00b4",
    "\u00ad±‗¾¶§÷\u00b8", "°\u00a8·¹³²■\u00a0"]),
  ("cp852",
   ["Çüéâäůćç", "łëŐőîŹÄĆ", "ÉĹĺôöĽľŚ", "śÖÜŤťŁ×č", "áíóúĄąŽž", "Ęę¬źČş«»", "░▒▓│┤ÁÂĚ", "Ş╣║╗╝Żż┐",
    "└┴┬├─┼Ăă", "╚╔╩╦╠═╬¤", "đĐĎËďŇÍÎ", "ě┘┌█▄ŢŮ▀", "ÓßÔŃńňŠš", "ŔÚŕŰýÝţ\u00b4",
    "\u00ad\u02dd\u02db\u02c7\u02d8§÷\u00b8", "°\u00a8\u02d9űŘř■\u00a0"]),
  ("cp855",
   ["ђЂѓЃёЁєЄ", "ѕЅіІїЇјЈ", "љЉњЊћЋќЌ", "ўЎџЏюЮъЪ", "аАбБцЦдД", "еЕфФгГ«»", "░▒▓│┤хХи", "И╣║╗╝йЙ┐",
    "└┴┬├─┼кК", "╚╔╩╦╠═╬¤", "лЛмМнНоО", "п┘┌█▄Пя▀", "ЯрРсСтТу", "УжЖвВьЬ№", "\u00adыЫзЗшШэ",
    "ЭщЩчЧ§■\u00a0"]),
  ("cp856",
   ["\u05d0\u05d1\u05d2\u05d3\u05d4\u05d5\u05d6\u05d7",
    "\u05d8\u05d9\u05da\u05db\u05dc\u05dd\u05de\u05df",
    "\u05e0\u05e1\u05e2\u05e3\u05e4\u05e5\u05e6\u05e7", "\u05e8\u05e9\u05ea\ufffd£\ufffd×\ufffd",
    "\ufffd\ufffd\ufffd\ufffd\ufffd\ufffd\ufffd\ufffd", "\ufffd®¬½¼\ufffd«»",
    "░▒▓│┤\ufffd\ufffd\ufffd", "©╣║╗╝¢¥┐", "└┴┬├─┼\ufffd\ufffd", "╚╔╩╦╠═╬¤",
    "\ufffd\ufffd\ufffd\ufffd\ufffd\ufffd\ufffd\ufffd", "\ufffd┘┌█▄¦\ufffd▀",
    "\ufffd\ufffd\ufffd\ufffd\ufffd\ufffdµ\ufffd",
    "\ufffd\ufffd\ufffd\ufffd\ufffd\ufffd\u00af\u00b4", "\u00ad±‗¾¶§÷\u00b8",
    "°\u00a8·¹³²■\u00a0"]),
  ("cp857",
   ["Çüéâäàåç", "êëèïîıÄÅ", "ÉæÆôöòûù", "İÖÜø£ØŞş", "áíóúñÑĞğ", "¿®¬½¼¡«»", "░▒▓│┤ÁÂÀ", "©╣║╗╝¢¥┐",
    "└┴┬├─┼ãÃ", "╚╔╩╦╠═╬¤", "ºªÊËÈ\ufffdÍÎ", "Ï┘┌█▄¦Ì▀", "ÓßÔÒõÕµ\ufffd", "×ÚÛÙìÿ\u00af\u00b4",
    "\u00ad±\ufffd¾¶§÷\u00b8", "°\u00a8·¹³²■\u00a0"]),
  ("cp858",
   ["Çüéâäàåç", "êëèïîìÄÅ", "ÉæÆôöòûù", "ÿÖÜø£Ø×ƒ", "áíóúñÑªº", "¿®¬½¼¡«»", "░▒▓│┤ÁÂÀ", "©╣║╗╝¢¥┐",
    "└┴┬├─┼ãÃ", "╚╔╩╦╠═╬¤", "ðÐÊËÈ€ÍÎ", "Ï┘┌█▄¦Ì▀", "ÓßÔÒõÕµþ", "ÞÚÛÙýÝ\u00af\u00b4",
    "\u00ad±‗¾¶§÷\u00b8", "°\u00a8·¹³²■\u00a0"]),
  ("cp860",
   ["ÇüéâãàÁç", "êÊèÍÔìÃÂ", "ÉÀÈôõòÚù", "ÌÕÜ¢£Ù₧Ó", "áíóúñÑªº", "¿Ò¬½¼¡«»", "░▒▓│┤╡╢╖", "╕╣║╗╝╜╛┐",
    "└┴┬├─┼╞╟", "╚╔╩╦╠═╬╧", "╨╤╥╙╘╒╓╫", "╪┘┌█▄▌▐▀", "αßΓπΣσµτ", "ΦΘΩδ∞φε∩", "≡±≥≤⌠⌡÷≈",
    "°∙·√\u207f²■\u00a0"]),
  ("cp861",
   ["Çüéâäàåç", "êëèÐðÞÄÅ", "ÉæÆôöþûÝ", "ýÖÜø£Ø₧ƒ", "áíóúÁÍÓÚ", "¿⌐¬½¼¡«»", "░▒▓│┤╡╢╖", "╕╣║╗╝╜╛┐",
    "└┴┬├─┼╞╟", "╚╔╩╦╠═╬╧", "╨╤╥╙╘╒╓╫", "╪┘┌█▄▌▐▀", "αßΓπΣσµτ", "ΦΘΩδ∞φε∩", "≡±≥≤⌠⌡÷≈",
    "°∙·√\u207f²■\u00a0"]),
  ("cp862",
   ["\u05d0\u05d1\u05d2\u05d3\u05d4\u05d5\u05d6\u05d7",
    "\u05d8\u05d9\u05da\u05db\u05dc\u05dd\u05de\u05df",
    "\u05e0\u05e1\u05e2\u05e3\u05e4\u05e5\u05e6\u05e7", "\u05e8\u05e9\u05ea¢£¥₧ƒ", "áíóúñÑªº",
    "¿⌐¬½¼¡«»", "░▒▓│┤╡╢╖", "╕╣║╗╝╜╛┐", "└┴┬├─┼╞╟", "╚╔╩╦╠═╬╧", "╨╤╥╙╘╒╓╫", "╪┘┌█▄▌▐▀", "αßΓπΣσµτ",
    "ΦΘΩδ∞φε∩", "≡±≥≤⌠⌡÷≈", "°∙·√\u207f²■\u00a0"]),
  ("cp863",
   ["ÇüéâÂà¶ç", "êëèïî‗À§", "ÉÈÊôËÏûù", "¤ÔÜ¢£ÙÛƒ", "¦\u00b4óú\u00a8\u00b8³\u00af", "Î⌐¬½¼¾«»",
    "░▒▓│┤╡╢╖", "╕╣║╗╝╜╛┐", "└┴┬├─┼╞╟", "╚╔╩╦╠═╬╧", "╨╤╥╙╘╒╓╫", "╪┘┌█▄▌▐▀", "αßΓπΣσµτ", "ΦΘΩδ∞φε∩",
    "≡±≥≤⌠⌡÷≈", "°∙·√\u207f²■\u00a0"]),
  ("cp865",
   ["Çüéâäàåç", "êëèïîìÄÅ", "ÉæÆôöòûù", "ÿÖÜø£Ø₧ƒ", "áíóúñÑªº", "¿⌐¬½¼¡«¤", "░▒▓│┤╡╢╖", "╕╣║╗╝╜╛┐",
    "└┴┬├─┼╞╟", "╚╔╩╦╠═╬╧", "╨╤╥╙╘╒╓╫", "╪┘┌█▄▌▐▀", "αßΓπΣσµτ", "ΦΘΩδ∞φε∩", "≡±≥≤⌠⌡÷≈",
    "°∙·√\u207f²■\u00a0"]),
  ("cp866",
   ["АБВГДЕЖЗ", "ИЙКЛМНОП", "РСТУФХЦЧ", "ШЩЪЫЬЭЮЯ", "абвгдежз", "ийклмноп", "░▒▓│┤╡╢╖", "╕╣║╗╝╜╛┐",
    "└┴┬├─┼╞╟", "╚╔╩╦╠═╬╧", "╨╤╥╙╘╒╓╫", "╪┘┌█▄▌▐▀", "рстуфхцч", "шщъыьэюя", "ЁёЄєЇїЎў",
    "°∙·√№¤■\u00a0"]),
  ("cp869",
   ["\ufffd\ufffd\ufffd\ufffd\ufffd\ufffdΆ\ufffd", "·¬¦\u2018\u2019Έ―Ή", "ΊΪΌ\ufffd\ufffdΎΫ©",
    "Ώ²³ά£έήί", "ϊΐόύΑΒΓΔ", "ΕΖΗ½ΘΙ«»", "░▒▓│┤ΚΛΜ", "Ν╣║╗╝ΞΟ┐", "└┴┬├─┼ΠΡ", "╚╔╩╦╠═╬Σ", "ΤΥΦΧΨΩαβ",
    "γ┘┌█▄δε▀", "ζηθικλμν", "ξοπρσςτ\u0384", "\u00ad±υφχ§ψ\u0385", "°\u00a8ωϋΰώ■\u00a0"]),
  ("cp874",
   ["€\ufffd\ufffd\ufffd\ufffd…\ufffd\ufffd", "\ufffd\ufffd\ufffd\ufffd\ufffd\ufffd\ufffd\ufffd",
    "\ufffd\u2018\u2019\u201c\u201d•–—", "\ufffd\ufffd\ufffd\ufffd\ufffd\ufffd\ufffd\ufffd",
    "\u00a0กขฃคฅฆง", "จฉชซฌญฎฏ", "ฐฑฒณดตถท", "ธนบปผฝพฟ", "ภมยรฤลฦว", "ศษสหฬอฮฯ",
    "ะ\u0e31าำ\u0e34\u0e35\u0e36\u0e37", "\u0e38\u0e39\u0e3a\ufffd\ufffd\ufffd\ufffd฿",
    "เแโใไๅ\u0e46\u0e47", "\u0e48\u0e49\u0e4a\u0e4b\u0e4c\u0e4d\u0e4e๏", "๐๑๒๓๔๕๖๗",
    "๘๙๚๛\ufffd\ufffd\ufffd\ufffd"]),
  ("hp_roman8",
   ["\u0080\u0081\u0082\u0083\u0084\u0085\u0086\u0087",
    "\u0088\u0089\u008a\u008b\u008c\u008d\u008e\u008f",
    "\u0090\u0091\u0092\u0093\u0094\u0095\u0096\u0097",
    "\u0098\u0099\u009a\u009b\u009c\u009d\u009e\u009f", "\u00a0ÀÂÈÊËÎÏ",
    "\u00b4\u02cb\u02c6\u00a8\u02dcÙÛ₤", "\u00afÝý°ÇçÑñ", "¡¿¤£¥§ƒ¢", "âêôûáéóú", "àèòùäëöü",
    "ÅîØÆåíøæ", "ÄìÖÜÉïßÔ", "ÁÃãÐðÍÌÓ", "ÒÕõŠšÚŸÿ", "Þþ·µ¶¾—¼", "½ªº«■»±\ufffd"]),
  ("iso8859_10",
   ["\u0080\u0081\u0082\u0083\u0084\u0085\u0086\u0087",
    "\u0088\u0089\u008a\u008b\u008c\u008d\u008e\u008f",
    "\u0090\u0091\u0092\u0093\u0094\u0095\u0096\u0097",
    "\u0098\u0099\u009a\u009b\u009c\u009d\u009e\u009f", "\u00a0ĄĒĢĪĨĶ§", "ĻĐŠŦŽ\u00adŪŊ",
    "°ąēģīĩķ·", "ļđšŧž―ūŋ", "ĀÁÂÃÄÅÆĮ", "ČÉĘËĖÍÎÏ", "ÐŅŌÓÔÕÖŨ", "ØŲÚÛÜÝÞß", "āáâãäåæį", "čéęëėíîï",
    "ðņōóôõöũ", "øųúûüýþĸ"]),
  ("iso8859_11",
   ["\u0080\u0081\u0082\u0083\u0084\u0085\u0086\u0087",
    "\u0088\u0089\u008a\u008b\u008c\u008d\u008e\u008f",
    "\u0090\u0091\u0092\u0093\u0094\u0095\u0096\u0097",
    "\u0098\u0099\u009a\u009b\u009c\u009d\u009e\u009f", "\u00a0กขฃคฅฆง", "จฉชซฌญฎฏ", "ฐฑฒณดตถท",
    "ธนบปผฝพฟ", "ภมยรฤลฦว", "ศษสหฬอฮฯ", "ะ\u0e31าำ\u0e34\u0e35\u0e36\u0e37",
    "\u0e38\u0e39\u0e3a\ufffd\ufffd\ufffd\ufffd฿", "เแโใไๅ\u0e46\u0e47",
    "\u0e48\u0e49\u0e4a\u0e4b\u0e4c\u0e4d\u0e4e๏", "๐๑๒๓๔๕๖๗", "๘๙๚๛\ufffd\ufffd\ufffd\ufffd"]),
  ("iso8859_13",
   ["\u0080\u0081\u0082\u0083\u0084\u0085\u0086\u0087",
    "\u0088\u0089\u008a\u008b\u008c\u008d\u008e\u008f",
    "\u0090\u0091\u0092\u0093\u0094\u0095\u0096\u0097",
    "\u0098\u0099\u009a\u009b\u009c\u009d\u009e\u009f", "\u00a0\u201d¢£¤„¦§", "Ø©Ŗ«¬\u00ad®Æ",
    "°±²³\u201cµ¶·", "ø¹ŗ»¼½¾æ", "ĄĮĀĆÄÅĘĒ", "ČÉŹĖĢĶĪĻ", "ŠŃŅÓŌÕÖ×", "ŲŁŚŪÜŻŽß", "ąįāćäåęē",
    "čéźėģķīļ", "šńņóōõö÷", "ųłśūüżž\u2019"]),
  ("iso8859_14",
   ["\u0080\u0081\u0082\u0083\u0084\u0085\u0086\u0087",
    "\u0088\u0089\u008a\u008b\u008c\u008d\u008e\u008f",
    "\u0090\u0091\u0092\u0093\u0094\u0095\u0096\u0097",
    "\u0098\u0099\u009a\u009b\u009c\u009d\u009e\u009f", "\u00a0Ḃḃ£ĊċḊ§", "Ẁ©ẂḋỲ\u00ad®Ÿ",
    "ḞḟĠġṀṁ¶Ṗ", "ẁṗẃṠỳẄẅṡ", "ÀÁÂÃÄÅÆÇ", "ÈÉÊËÌÍÎÏ", "ŴÑÒÓÔÕÖṪ", "ØÙÚÛÜÝŶß", "àáâãäåæç", "èéêëìíîï",
    "ŵñòóôõöṫ", "øùúûüýŷÿ"]),
  ("iso8859_15",
   ["\u0080\u0081\u0082\u0083\u0084\u0085\u0086\u0087",
    "\u0088\u0089\u008a\u008b\u008c\u008d\u008e\u008f",
    "\u0090\u0091\u0092\u0093\u0094\u0095\u0096\u0097",
    "\u0098\u0099\u009a\u009b\u009c\u009d\u009e\u009f", "\u00a0¡¢£€¥Š§", "š©ª«¬\u00ad®\u00af",
    "°±²³Žµ¶·", "ž¹º»ŒœŸ¿", "ÀÁÂÃÄÅÆÇ", "ÈÉÊËÌÍÎÏ", "ÐÑÒÓÔÕÖ×", "ØÙÚÛÜÝÞß", "àáâãäåæç", "èéêëìíîï",
    "ðñòóôõö÷", "øùúûüýþÿ"]),
  ("iso8859_16",
   ["\u0080\u0081\u0082\u0083\u0084\u0085\u0086\u0087",
    "\u0088\u0089\u008a\u008b\u008c\u008d\u008e\u008f",
    "\u0090\u0091\u0092\u0093\u0094\u0095\u0096\u0097",
    "\u0098\u0099\u009a\u009b\u009c\u009d\u009e\u009f", "\u00a0ĄąŁ€„Š§", "š©Ș«Ź\u00adźŻ",
    "°±ČłŽ\u201d¶·", "žčș»ŒœŸż", "ÀÁÂĂÄĆÆÇ", "ÈÉÊËÌÍÎÏ", "ĐŃÒÓÔŐÖŚ", "ŰÙÚÛÜĘȚß", "àáâăäćæç",
    "èéêëìíîï", "đńòóôőöś", "űùúûüęțÿ"]),
  ("iso8859_2",
   ["\u0080\u0081\u0082\u0083\u0084\u0085\u0086\u0087",
    "\u0088\u0089\u008a\u008b\u008c\u008d\u008e\u008f",
    "\u0090\u0091\u0092\u0093\u0094\u0095\u0096\u0097",
    "\u0098\u0099\u009a\u009b\u009c\u009d\u009e\u009f", "\u00a0Ą\u02d8Ł¤ĽŚ§", "\u00a8ŠŞŤŹ\u00adŽŻ",
    "°ą\u02dbł\u00b4ľś\u02c7", "\u00b8šşťź\u02ddžż", "ŔÁÂĂÄĹĆÇ", "ČÉĘËĚÍÎĎ", "ĐŃŇÓÔŐÖ×",
    "ŘŮÚŰÜÝŢß", "ŕáâăäĺćç", "čéęëěíîď", "đńňóôőö÷", "řůúűüýţ\u02d9"]),
  ("iso8859_3",
   ["\u0080\u0081\u0082\u0083\u0084\u0085\u0086\u0087",
    "\u0088\u0089\u008a\u008b\u008c\u008d\u008e\u008f",
    "\u0090\u0091\u0092\u0093\u0094\u0095\u0096\u0097",
    "\u0098\u0099\u009a\u009b\u009c\u009d\u009e\u009f", "\u00a0Ħ\u02d8£¤\ufffdĤ§",
    "\u00a8İŞĞĴ\u00ad\ufffdŻ", "°ħ²³\u00b4µĥ·", "\u00b8ışğĵ½\ufffdż", "ÀÁÂ\ufffdÄĊĈÇ", "ÈÉÊËÌÍÎÏ",
    "\ufffdÑÒÓÔĠÖ×", "ĜÙÚÛÜŬŜß", "àáâ\ufffdäċĉç", "èéêëìíîï", "\ufffdñòóôġö÷", "ĝùúûüŭŝ\u02d9"]),
  ("iso8859_4",
   ["\u0080\u0081\u0082\u0083\u0084\u0085\u0086\u0087",
    "\u0088\u0089\u008a\u008b\u008c\u008d\u008e\u008f",
    "\u0090\u0091\u0092\u0093\u0094\u0095\u0096\u0097",
    "\u0098\u0099\u009a\u009b\u009c\u009d\u009e\u009f", "\u00a0ĄĸŖ¤ĨĻ§", "\u00a8ŠĒĢŦ\u00adŽ\u00af",
    "°ą\u02dbŗ\u00b4ĩļ\u02c7", "\u00b8šēģŧŊžŋ", "ĀÁÂÃÄÅÆĮ", "ČÉĘËĖÍÎĪ", "ĐŅŌĶÔÕÖ×", "ØŲÚÛÜŨŪß",
    "āáâãäåæį", "čéęëėíîī", "đņōķôõö÷", "øųúûüũū\u02d9"]),
  ("iso8859_5",
   ["\u0080\u0081\u0082\u0083\u0084\u0085\u0086\u0087",
    "\u0088\u0089\u008a\u008b\u008c\u008d\u008e\u008f",
    "\u0090\u0091\u0092\u0093\u0094\u0095\u0096\u0097",
    "\u0098\u0099\u009a\u009b\u009c\u009d\u009e\u009f", "\u00a0ЁЂЃЄЅІЇ", "ЈЉЊЋЌ\u00adЎЏ",
    "АБВГДЕЖЗ", "ИЙКЛМНОП", "РСТУФХЦЧ", "ШЩЪЫЬЭЮЯ", "абвгдежз", "ийклмноп", "рстуфхцч", "шщъыьэюя",
    "№ёђѓєѕії", "јљњћќ§ўџ"]),
  ("iso8859_6",
   ["\u0080\u0081\u0082\u0083\u0084\u0085\u0086\u0087",
    "\u0088\u0089\u008a\u008b\u008c\u008d\u008e\u008f",
    "\u0090\u0091\u0092\u0093\u0094\u0095\u0096\u0097",
    "\u0098\u0099\u009a\u009b\u009c\u009d\u009e\u009f",
    "\u00a0\ufffd\ufffd\ufffd¤\ufffd\ufffd\ufffd", "\ufffd\ufffd\ufffd\ufffd،\u00ad\ufffd\ufffd",
    "\ufffd\ufffd\ufffd\ufffd\ufffd\ufffd\ufffd\ufffd",
    "\ufffd\ufffd\ufffd\u061b\ufffd\ufffd\ufffd\u061f",
    "\ufffd\u0621\u0622\u0623\u0624\u0625\u0626\u0627",
    "\u0628\u0629\u062a\u062b\u062c\u062d\u062e\u062f",
    "\u0630\u0631\u0632\u0633\u0634\u0635\u0636\u0637",
    "\u0638\u0639\u063a\ufffd\ufffd\ufffd\ufffd\ufffd",
    "\u0640\u0641\u0642\u0643\u0644\u0645\u0646\u0647",
    "\u0648\u0649\u064a\u064b\u064c\u064d\u064e\u064f",
    "\u0650\u0651\u0652\ufffd\ufffd\ufffd\ufffd\ufffd",
    "\ufffd\ufffd\ufffd\ufffd\ufffd\ufffd\ufffd\ufffd"]),
  ("iso8859_7",
   ["\u0080\u0081\u0082\u0083\u0084\u0085\u0086\u0087",
    "\u0088\u0089\u008a\u008b\u008c\u008d\u008e\u008f",
    "\u0090\u0091\u0092\u0093\u0094\u0095\u0096\u0097",
    "\u0098\u0099\u009a\u009b\u009c\u009d\u009e\u009f", "\u00a0\u2018\u2019£€₯¦§",
    "\u00a8©\u037a«¬\u00ad\ufffd―", "°±²³\u0384\u0385Ά·", "ΈΉΊ»Ό½ΎΏ", "ΐΑΒΓΔΕΖΗ", "ΘΙΚΛΜΝΞΟ",
    "ΠΡ\ufffdΣΤΥΦΧ", "ΨΩΪΫάέήί", "ΰαβγδεζη", "θικλμνξο", "πρςστυφχ", "ψωϊϋόύώ\ufffd"]),
  ("iso8859_8",
   ["\u0080\u0081\u0082\u0083\u0084\u0085\u0086\u0087",
    "\u0088\u0089\u008a\u008b\u008c\u008d\u008e\u008f",
    "\u0090\u0091\u0092\u0093\u0094\u0095\u0096\u0097",
    "\u0098\u0099\u009a\u009b\u009c\u009d\u009e\u009f", "\u00a0\ufffd¢£¤¥¦§",
    "\u00a8©×«¬\u00ad®\u00af", "°±²³\u00b4µ¶·", "\u00b8¹÷»¼½¾\ufffd",
    "\ufffd\ufffd\ufffd\ufffd\ufffd\ufffd\ufffd\ufffd",
    "\ufffd\ufffd\ufffd\ufffd\ufffd\ufffd\ufffd\ufffd",
    "\ufffd\ufffd\ufffd\ufffd\ufffd\ufffd\ufffd\ufffd",
    "\ufffd\ufffd\ufffd\ufffd\ufffd\ufffd\ufffd‗",
    "\u05d0\u05d1\u05d2\u05d3\u05d4\u05d5\u05d6\u05d7",
    "\u05d8\u05d9\u05da\u05db\u05dc\u05dd\u05de\u05df",
    "\u05e0\u05e1\u05e2\u05e3\u05e4\u05e5\u05e6\u05e7",
    "\u05e8\u05e9\u05ea\ufffd\ufffd\u200e\u200f\ufffd"]),
  ("iso8859_9",
   ["\u0080\u0081\u0082\u0083\u0084\u0085\u0086\u0087",
    "\u0088\u0089\u008a\u008b\u008c\u008d\u008e\u008f",
    "\u0090\u0091\u0092\u0093\u0094\u0095\u0096\u0097",
    "\u0098\u0099\u009a\u009b\u009c\u009d\u009e\u009f", "\u00a0¡¢£¤¥¦§", "\u00a8©ª«¬\u00ad®\u00af",
    "°±²³\u00b4µ¶·", "\u00b8¹º»¼½¾¿", "ÀÁÂÃÄÅÆÇ", "ÈÉÊËÌÍÎÏ", "ĞÑÒÓÔÕÖ×", "ØÙÚÛÜİŞß", "àáâãäåæç",
    "èéêëìíîï", "ğñòóôõö÷", "øùúûüışÿ"]),
  ("koi8_r",
   ["─│┌┐└┘├┤", "┬┴┼▀▄█▌▐", "░▒▓⌠■∙√≈", "≤≥\u00a0⌡°²·÷", "═║╒ё╓╔╕╖", "╗╘╙╚╛╜╝╞", "╟╠╡Ё╢╣╤╥",
    "╦╧╨╩╪╫╬©", "юабцдефг", "хийклмно", "пярстужв", "ьызшэщчъ", "ЮАБЦДЕФГ", "ХИЙКЛМНО", "ПЯРСТУЖВ",
    "ЬЫЗШЭЩЧЪ"]),
  ("koi8_t",
   ["қғ‚Ғ„…†‡", "\ufffd‰ҳ‹ҲҷҶ\ufffd", "Қ\u2018\u2019\u201c\u201d•–—",
    "\ufffd™\ufffd›\ufffd\ufffd\ufffd\ufffd", "\ufffdӯӮё¤ӣ¦§", "\ufffd\ufffd\ufffd«¬\u00ad®\ufffd",
    "°±²Ё\ufffdӢ¶·", "\ufffd№\ufffd»\ufffd\ufffd\ufffd©", "юабцдефг", "хийклмно", "пярстужв",
    "ьызшэщчъ", "ЮАБЦДЕФГ", "ХИЙКЛМНО", "ПЯРСТУЖВ", "ЬЫЗШЭЩЧЪ"]),
  ("koi8_u",
   ["─│┌┐└┘├┤", "┬┴┼▀▄█▌▐", "░▒▓⌠■∙√≈", "≤≥\u00a0⌡°²·÷", "═║╒ёє╔ії", "╗╘╙╚╛ґ╝╞", "╟╠╡ЁЄ╣ІЇ",
    "╦╧╨╩╪Ґ╬©", "юабцдефг", "хийклмно", "пярстужв", "ьызшэщчъ", "ЮАБЦДЕФГ", "ХИЙКЛМНО", "ПЯРСТУЖВ",
    "ЬЫЗШЭЩЧЪ"]),
  ("kz1048",
   ["ЂЃ‚ѓ„…†‡", "€‰Љ‹ЊҚҺЏ", "ђ\u2018\u2019\u201c\u201d•–—", "\ufffd™љ›њқһџ", "\u00a0ҰұӘ¤Ө¦§",
    "Ё©Ғ«¬\u00ad®Ү", "°±Ііөµ¶·", "ё№ғ»әҢңү", "АБВГДЕЖЗ", "ИЙКЛМНОП", "РСТУФХЦЧ", "ШЩЪЫЬЭЮЯ",
    "абвгдежз", "ийклмноп", "рстуфхцч", "шщъыьэюя"]),
  ("mac_croatian",
   ["ÄÅÇÉÑÖÜá", "àâäãåçéè", "êëíìîïñó", "òôöõúùûü", "†°¢£§•¶ß", "®Š™\u00b4\u00a8≠ŽØ", "∞±≤≥∆µ∂∑",
    "∏š∫ªºΩžø", "¿¡¬√ƒ≈Ć«", "Č…\u00a0ÀÃÕŒœ", "Đ—\u201c\u201d\u2018\u2019÷◊", "\uf8ff©⁄€‹›Æ»",
    "–·‚„‰ÂćÁ", "čÈÍÎÏÌÓÔ", "đÒÚÛÙı\u02c6\u02dc", "\u00afπË\u02da\u00b8Êæ\u02c7"]),
  ("mac_cyrillic",
   ["АБВГДЕЖЗ", "ИЙКЛМНОП", "РСТУФХЦЧ", "ШЩЪЫЬЭЮЯ", "†°Ґ£§•¶І", "®©™Ђђ≠Ѓѓ", "∞±≤≥іµґЈ", "ЄєЇїЉљЊњ",
    "јЅ¬√ƒ≈∆«", "»…\u00a0ЋћЌќѕ", "–—\u201c\u201d\u2018\u2019÷„", "ЎўЏџ№Ёёя", "абвгдежз",
    "ийклмноп", "рстуфхцч", "шщъыьэю€"]),
  ("mac_greek",
   ["Ä¹²É³ÖÜ\u0385", "àâä\u0384\u00a8çéè", "êë£™îï•½", "‰ôö¦€ùûü", "†ΓΔΘΛΞΠß", "®©ΣΪ§≠°·",
    "Α±≤≥¥ΒΕΖ", "ΗΙΚΜΦΫΨΩ", "άΝ¬ΟΡ≈Τ«", "»…\u00a0ΥΧΆΈœ", "–―\u201c\u201d\u2018\u2019÷Ή",
    "ΊΌΎέήίόΏ", "ύαβψδεφγ", "ηιξκλμνο", "πώρστθως", "χυζϊϋΐΰ\u00ad"]),
  ("mac_iceland",
   ["ÄÅÇÉÑÖÜá", "àâäãåçéè", "êëíìîïñó", "òôöõúùûü", "Ý°¢£§•¶ß", "®©™\u00b4\u00a8≠ÆØ", "∞±≤≥¥µ∂∑",
    "∏π∫ªºΩæø", "¿¡¬√ƒ≈∆«", "»…\u00a0ÀÃÕŒœ", "–—\u201c\u201d\u2018\u2019÷◊", "ÿŸ⁄€ÐðÞþ",
    "ý·‚„‰ÂÊÁ", "ËÈÍÎÏÌÓÔ", "\uf8ffÒÚÛÙı\u02c6\u02dc",
    "\u00af\u02d8\u02d9\u02da\u00b8\u02dd\u02db\u02c7"]),
  ("mac_latin2",
   ["ÄĀāÉĄÖÜá", "ąČäčĆćéŹ", "źĎíďĒēĖó", "ėôöõúĚěü", "†°Ę£§•¶ß", "®©™ę\u00a8≠ģĮ", "įĪ≤≥īĶ∂∑",
    "łĻļĽľĹĺŅ", "ņŃ¬√ńŇ∆«", "»…\u00a0ňŐÕőŌ", "–—\u201c\u201d\u2018\u2019÷◊", "ōŔŕŘ‹›řŖ",
    "ŗŠ‚„šŚśÁ", "ŤťÍŽžŪÓÔ", "ūŮÚůŰűŲų", "ÝýķŻŁżĢ\u02c7"]),
  ("mac_roman",
   ["ÄÅÇÉÑÖÜá", "àâäãåçéè", "êëíìîïñó", "òôöõúùûü", "†°¢£§•¶ß", "®©™\u00b4\u00a8≠ÆØ", "∞±≤≥¥µ∂∑",
    "∏π∫ªºΩæø", "¿¡¬√ƒ≈∆«", "»…\u00a0ÀÃÕŒœ", "–—\u201c\u201d\u2018\u2019÷◊", "ÿŸ⁄€‹›ﬁﬂ",
    "‡·‚„‰ÂÊÁ", "ËÈÍÎÏÌÓÔ", "\uf8ffÒÚÛÙı\u02c6\u02dc",
    "\u00af\u02d8\u02d9\u02da\u00b8\u02dd\u02db\u02c7"]),
  ("mac_romanian",
   ["ÄÅÇÉÑÖÜá", "àâäãåçéè", "êëíìîïñó", "òôöõúùûü", "†°¢£§•¶ß", "®©™\u00b4\u00a8≠ĂȘ", "∞±≤≥¥µ∂∑",
    "∏π∫ªºΩăș", "¿¡¬√ƒ≈∆«", "»…\u00a0ÀÃÕŒœ", "–—\u201c\u201d\u2018\u2019÷◊", "ÿŸ⁄€‹›Țț",
    "‡·‚„‰ÂÊÁ", "ËÈÍÎÏÌÓÔ", "\uf8ffÒÚÛÙı\u02c6\u02dc",
    "\u00af\u02d8\u02d9\u02da\u00b8\u02dd\u02db\u02c7"]),
  ("mac_turkish",
   ["ÄÅÇÉÑÖÜá", "àâäãåçéè", "êëíìîïñó", "òôöõúùûü", "†°¢£§•¶ß", "®©™\u00b4\u00a8≠ÆØ", "∞±≤≥¥µ∂∑",
    "∏π∫ªºΩæø", "¿¡¬√ƒ≈∆«", "»…\u00a0ÀÃÕŒœ", "–—\u201c\u201d\u2018\u2019÷◊", "ÿŸĞğİıŞş",
    "‡·‚„‰ÂÊÁ", "ËÈÍÎÏÌÓÔ", "\uf8ffÒÚÛÙ\uf8a0\u02c6\u02dc",
    "\u00af\u02d8\u02d9\u02da\u00b8\u02dd\u02db\u02c7"]),
  ("palmos",
   ["€\u0081‚ƒ„…†‡", "\u02c6‰Š‹Œ♦♣♥", "♠\u2018\u2019\u201c\u201d•–—",
    "\u02dc™š\u009bœ\u009d\u009eŸ", "\u00a0¡¢£¤¥¦§", "\u00a8©ª«¬\u00ad®\u00af", "°±²³\u00b4µ¶·",
    "\u00b8¹º»¼½¾¿", "ÀÁÂÃÄÅÆÇ", "ÈÉÊËÌÍÎÏ", "ÐÑÒÓÔÕÖ×", "ØÙÚÛÜÝÞß", "àáâãäåæç", "èéêëìíîï",
    "ðñòóôõö÷", "øùúûüýþÿ"]),
  ("ptcp154",
   ["ҖҒӮғ„…ҶҮ", "ҲүҠӢҢҚҺҸ", "җ\u2018\u2019\u201c\u201d•–—", "ҳҷҡӣңқһҹ", "\u00a0ЎўЈӨҘҰ§",
    "Ё©Ә«¬ӯ®Ҝ", "°ұІіҙө¶·", "ё№ә»јҪҫҝ", "АБВГДЕЖЗ", "ИЙКЛМНОП", "РСТУФХЦЧ", "ШЩЪЫЬЭЮЯ", "абвгдежз",
    "ийклмноп", "рстуфхцч", "шщъыьэюя"]),
  ("tis_620",
   ["\u0080\u0081\u0082\u0083\u0084\u0085\u0086\u0087",
    "\u0088\u0089\u008a\u008b\u008c\u008d\u008e\u008f",
    "\u0090\u0091\u0092\u0093\u0094\u0095\u0096\u0097",
    "\u0098\u0099\u009a\u009b\u009c\u009d\u009e\u009f", "\ufffdกขฃคฅฆง", "จฉชซฌญฎฏ", "ฐฑฒณดตถท",
    "ธนบปผฝพฟ", "ภมยรฤลฦว", "ศษสหฬอฮฯ", "ะ\u0e31าำ\u0e34\u0e35\u0e36\u0e37",
    "\u0e38\u0e39\u0e3a\ufffd\ufffd\ufffd\ufffd฿", "เแโใไๅ\u0e46\u0e47",
    "\u0e48\u0e49\u0e4a\u0e4b\u0e4c\u0e4d\u0e4e๏", "๐๑๒๓๔๕๖๗", "๘๙๚๛\ufffd\ufffd\ufffd\ufffd"])]

/-- Charsets whose upper half is the Latin-1 block: each byte is the code point of its number. -/
def latinBlock : List String :=
  ["charmap", "iso8859_1", "latin_1", "raw_unicode_escape", "unicode_escape"]

/-- Charsets in which only the ASCII bytes stand for a character by themselves. -/
def asciiOnly : List String :=
  ["ascii", "iso2022_jp", "iso2022_jp_1", "iso2022_jp_2", "iso2022_jp_2004", "iso2022_jp_3",
   "iso2022_jp_ext", "utf_8", "utf_8_sig"]

/-- Charsets like these in which a tilde starts an escape and stands for no character. -/
def asciiWithoutTilde : List String :=
  ["hz"]

/-- Charsets in which some characters take several bytes. -/
def multiByte : List String :=
  ["big5", "big5hkscs", "cp932", "cp949", "cp950", "euc_jis_2004", "euc_jisx0213", "euc_jp",
   "euc_kr", "gb18030", "gb2312", "gbk", "iso2022_kr", "johab", "shift_jis", "shift_jis_2004",
   "shift_jisx0213", "utf_16", "utf_16_be", "utf_16_le", "utf_32", "utf_32_be", "utf_32_le",
   "utf_7"]

/-- Single-byte charsets whose lower half is not ASCII. -/
def notAscii : List String :=
  ["cp037", "cp1026", "cp1140", "cp273", "cp424", "cp500", "cp864", "cp875", "mac_arabic",
   "mac_farsi"]

/-- Encodings of bytes or text that are no charsets. -/
def transforms : List String :=
  ["base64_codec", "bz2_codec", "hex_codec", "quopri_codec", "rot_13", "uu_codec", "zlib_codec"]

end FxmlWiring.Markup.Charset
