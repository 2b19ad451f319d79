/-!
# Languages of font names

A name record says in which language its string is written by a number.
Numbers up to 151 come from one numbering of languages and numbers from
1025 on from another, of languages together with their regions; the two
do not meet, so one table serves both. `Language.tag?` gives the tag a
number stands for, such as `de-DE` for 1031.

A font of the newer table format may also carry language tags of its own,
as text; those are read with the name table and do not come from here.
-/

namespace FontCatalog.Language

/-- **The numbered languages**, in ascending order of their numbers. -/
def numbered : List (Nat × String) :=
  [(0, "en"), (1, "fr"), (2, "de"), (3, "it"), (4, "nl"), (5, "sv"), (6, "es"), (7, "da"),
   (8, "pt"), (9, "nb"), (10, "he"), (11, "ja"), (12, "ar"), (13, "fi"), (14, "el"),
   (15, "is"), (16, "mt"), (17, "tr"), (18, "hr"), (19, "zh-Hant"), (20, "ur"), (21, "hi"),
   (22, "th"), (23, "ko"), (24, "lt"), (25, "pl"), (26, "hu"), (27, "et"), (28, "lv"),
   (29, "se"), (30, "fo"), (31, "fa"), (32, "ru"), (33, "zh-Hans"), (34, "nl"), (35, "ga"),
   (36, "sq"), (37, "ro"), (38, "cs"), (39, "sk"), (40, "sl"), (41, "yi"), (42, "sr"),
   (43, "mk"), (44, "bg"), (45, "uk"), (46, "be"), (47, "uz"), (48, "kk"), (49, "az-Cyrl"),
   (50, "az-Arab"), (51, "hy"), (52, "ka"), (53, "mo"), (54, "ky"), (55, "tg"), (56, "tk"),
   (57, "mn-Mong"), (58, "mn-Cyrl"), (59, "ps"), (60, "ku"), (61, "ks"), (62, "sd"),
   (63, "bo"), (64, "ne"), (65, "sa"), (66, "mr"), (67, "bn"), (68, "as"), (69, "gu"),
   (70, "pa"), (71, "or"), (72, "ml"), (73, "kn"), (74, "ta"), (75, "te"), (76, "si"),
   (77, "my"), (78, "km"), (79, "lo"), (80, "vi"), (81, "id"), (82, "tl"), (83, "ms-Latn"),
   (84, "ms-Arab"), (85, "am"), (86, "ti"), (87, "om"), (88, "so"), (89, "sw"), (90, "rw"),
   (91, "rn"), (92, "ny"), (93, "mg"), (94, "eo"), (128, "cy"), (129, "eu"), (130, "ca"),
   (131, "la"), (132, "qu"), (133, "gn"), (134, "ay"), (135, "tt"), (136, "ug"), (137, "dz"),
   (138, "jv-Latn"), (139, "su-Latn"), (140, "gl"), (141, "af"), (142, "br"), (143, "iu"),
   (144, "gd"), (145, "gv"), (146, "ga"), (147, "to"), (148, "el"), (149, "kl"),
   (150, "az-Latn"), (151, "nn"), (1025, "ar-SA"), (1026, "bg-BG"), (1027, "ca-ES"),
   (1028, "zh-TW"), (1029, "cs-CZ"), (1030, "da-DK"), (1031, "de-DE"), (1032, "el-GR"),
   (1033, "en-US"), (1034, "es-ES_tradnl"), (1035, "fi-FI"), (1036, "fr-FR"), (1037, "he"),
   (1038, "hu"), (1039, "is-IS"), (1040, "it-IT"), (1041, "ja-JP"), (1042, "ko-KR"),
   (1043, "nl-NL"), (1044, "nb-NO"), (1045, "pl-PL"), (1046, "pt-BR"), (1047, "rm-CH"),
   (1048, "ro-RO"), (1049, "ru-RU"), (1050, "hr-HR"), (1051, "sk-SK"), (1052, "sq-AL"),
   (1053, "sv-SE"), (1054, "th-TH"), (1055, "tr-TR"), (1056, "ur-PK"), (1057, "id-ID"),
   (1058, "uk-UA"), (1059, "be-BY"), (1060, "sl-SI"), (1061, "et-EE"), (1062, "lv-LV"),
   (1063, "lt-LT"), (1064, "tg-Cyrl-TJ"), (1065, "fa-IR"), (1066, "vi-VN"), (1067, "hy-AM"),
   (1068, "az-Latn-AZ"), (1069, "eu-ES"), (1070, "hsb-DE"), (1071, "mk-MK"), (1074, "tn-ZA"),
   (1076, "xh-ZA"), (1077, "zu-ZA"), (1078, "af-ZA"), (1079, "ka-GE"), (1080, "fo-FO"),
   (1081, "hi-IN"), (1082, "mt-MT"), (1083, "se-NO"), (1086, "ms-MY"), (1087, "kk-KZ"),
   (1088, "ky-KG"), (1089, "sw-KE"), (1090, "tk-TM"), (1091, "uz"), (1092, "tt-RU"),
   (1093, "bn-IN"), (1094, "pa-IN"), (1095, "gu-IN"), (1096, "or-IN"), (1097, "ta-IN"),
   (1098, "te-IN"), (1099, "kn-IN"), (1100, "ml-IN"), (1101, "as-IN"), (1102, "mr-IN"),
   (1103, "sa-IN"), (1104, "mn-Cyrl"), (1105, "bo-CN"), (1106, "cy-GB"), (1107, "km-KH"),
   (1108, "lo-LA"), (1110, "gl-ES"), (1111, "kok-IN"), (1114, "syr-SY"), (1115, "si-LK"),
   (1117, "iu-Cans-CA"), (1118, "am-ET"), (1121, "ne-NP"), (1122, "fy-NL"), (1123, "ps-AF"),
   (1124, "fil-PH"), (1125, "dv-MV"), (1128, "ha-Latn-NG"), (1130, "yo-NG"), (1131, "quz-BO"),
   (1132, "nso-ZA"), (1133, "ba-RU"), (1134, "lb-LU"), (1135, "kl-GL"), (1136, "ig-NG"),
   (1144, "ii-CN"), (1146, "arn-CL"), (1148, "moh-CA"), (1150, "br-FR"), (1152, "ug-CN"),
   (1153, "mi-NZ"), (1154, "oc-FR"), (1155, "co-FR"), (1156, "gsw-FR"), (1157, "sah-RU"),
   (1158, "qut-GT"), (1159, "rw-RW"), (1160, "wo-SN"), (1164, "prs-AF"), (1169, "gd-GB"),
   (2049, "ar-IQ"), (2052, "zh-Hans"), (2055, "de-CH"), (2057, "en-GB"), (2058, "es-MX"),
   (2060, "fr-BE"), (2064, "it-CH"), (2067, "nl-BE"), (2068, "nn-NO"), (2070, "pt-PT"),
   (2074, "sr-Latn-CS"), (2077, "sv-FI"), (2092, "az-Cyrl-AZ"), (2094, "dsb"),
   (2107, "se-SE"), (2108, "ga-IE"), (2110, "ms-BN"), (2115, "uz-Cyrl-UZ"), (2117, "bn-BD"),
   (2128, "mn-Mong-CN"), (2141, "iu-Latn-CA"), (2143, "tzm-Latn-DZ"), (2155, "quz-EC"),
   (3073, "ar-EG"), (3076, "zh-Hant"), (3079, "de-AT"), (3081, "en-AU"), (3082, "es-ES"),
   (3084, "fr-CA"), (3098, "sr-Cyrl-CS"), (3131, "se-FI"), (3179, "quz-PE"), (4097, "ar-LY"),
   (4100, "zh-SG"), (4103, "de-LU"), (4105, "en-CA"), (4106, "es-GT"), (4108, "fr-CH"),
   (4122, "hr-BA"), (4155, "smj-NO"), (5121, "ar-DZ"), (5124, "zh-MO"), (5127, "de-LI"),
   (5129, "en-NZ"), (5130, "es-CR"), (5132, "fr-LU"), (5146, "bs"), (5179, "smj"),
   (6145, "ar-MA"), (6153, "en-IE"), (6154, "es-PA"), (6156, "fr-MC"), (6170, "sr-Latn-BA"),
   (6203, "sma-NO"), (7169, "ar-TN"), (7177, "en-ZA"), (7178, "es-DO"), (7194, "sr-Cyrl-BA"),
   (7227, "sma"), (8193, "ar-OM"), (8201, "en-JM"), (8202, "es-VE"), (8218, "bs-Cyrl"),
   (8251, "sms"), (9217, "ar-YE"), (9225, "en-029"), (9226, "es-CO"), (9242, "sr-Latn-RS"),
   (9275, "smn-FI"), (10241, "ar-SY"), (10249, "en-BZ"), (10250, "es-PE"),
   (10266, "sr-Cyrl-RS"), (11265, "ar-JO"), (11273, "en-TT"), (11274, "es-AR"),
   (11290, "sr-Latn-ME"), (12289, "ar-LB"), (12297, "en-ZW"), (12298, "es-EC"),
   (12314, "sr-Cyrl-ME"), (13313, "ar-KW"), (13321, "en-PH"), (13322, "es-CL"),
   (14337, "ar-AE"), (14346, "es-UY"), (15361, "ar-BH"), (15370, "es-PY"), (16385, "ar-QA"),
   (16393, "en-IN"), (16394, "es-BO"), (17417, "en-MY"), (17418, "es-SV"), (18441, "en-SG"),
   (18442, "es-HN"), (19466, "es-NI"), (20490, "es-PR"), (21514, "es-US")]

/-- The tag of a numbered language; there is none for a number that is
not assigned. -/
def tag? (id : Nat) : Option String := numbered.lookup id

/-- The language that every choice of a name falls back to. -/
def fallback : String := "en-US"

/-- The number of the fallback language. -/
def fallbackId : UInt16 := 0x0409

/-- The fallback language's number and its tag belong together. -/
theorem tag?_fallbackId : tag? fallbackId.toNat = some fallback := by decide +kernel

end FontCatalog.Language
