import Mathlib.Data.List.Basic

/-!
# Lower case

The lower case of a text by the tables of Unicode: letter by letter, but for the capital sigma, which has another lower
case where it ends a word.
-/

namespace LowerCase

/-- Every `step`-th character from `first` to `last`: the lower case of `first` is `target`, and the others keep their
distance to it. -/
structure Letters where
  first : Nat
  last : Nat
  step : Nat
  target : Nat

/-- The characters with another lower case, in order. -/
def letters : List Letters :=
  [⟨65, 90, 1, 97⟩, ⟨192, 214, 1, 224⟩, ⟨216, 222, 1, 248⟩, ⟨256, 302, 2, 257⟩, ⟨304, 304, 2, 105⟩, ⟨306, 310, 2, 307⟩,
    ⟨313, 327, 2, 314⟩, ⟨330, 374, 2, 331⟩, ⟨376, 376, 2, 255⟩, ⟨377, 381, 2, 378⟩, ⟨385, 385, 2, 595⟩,
    ⟨386, 388, 2, 387⟩, ⟨390, 390, 2, 596⟩, ⟨391, 391, 2, 392⟩, ⟨393, 394, 1, 598⟩, ⟨395, 395, 2, 396⟩,
    ⟨398, 398, 2, 477⟩, ⟨399, 399, 2, 601⟩, ⟨400, 400, 2, 603⟩, ⟨401, 401, 2, 402⟩, ⟨403, 403, 2, 608⟩,
    ⟨404, 404, 2, 611⟩, ⟨406, 406, 2, 617⟩, ⟨407, 407, 2, 616⟩, ⟨408, 408, 2, 409⟩, ⟨412, 412, 2, 623⟩,
    ⟨413, 413, 2, 626⟩, ⟨415, 415, 2, 629⟩, ⟨416, 420, 2, 417⟩, ⟨422, 422, 2, 640⟩, ⟨423, 423, 2, 424⟩,
    ⟨425, 425, 2, 643⟩, ⟨428, 428, 2, 429⟩, ⟨430, 430, 2, 648⟩, ⟨431, 431, 2, 432⟩, ⟨433, 434, 1, 650⟩,
    ⟨435, 437, 2, 436⟩, ⟨439, 439, 2, 658⟩, ⟨440, 440, 2, 441⟩, ⟨444, 444, 2, 445⟩, ⟨452, 452, 2, 454⟩,
    ⟨453, 453, 2, 454⟩, ⟨455, 455, 2, 457⟩, ⟨456, 456, 2, 457⟩, ⟨458, 458, 2, 460⟩, ⟨459, 475, 2, 460⟩,
    ⟨478, 494, 2, 479⟩, ⟨497, 497, 2, 499⟩, ⟨498, 500, 2, 499⟩, ⟨502, 502, 2, 405⟩, ⟨503, 503, 2, 447⟩,
    ⟨504, 542, 2, 505⟩, ⟨544, 544, 2, 414⟩, ⟨546, 562, 2, 547⟩, ⟨570, 570, 2, 11365⟩, ⟨571, 571, 2, 572⟩,
    ⟨573, 573, 2, 410⟩, ⟨574, 574, 2, 11366⟩, ⟨577, 577, 2, 578⟩, ⟨579, 579, 2, 384⟩, ⟨580, 580, 2, 649⟩,
    ⟨581, 581, 2, 652⟩, ⟨582, 590, 2, 583⟩, ⟨880, 882, 2, 881⟩, ⟨886, 886, 2, 887⟩, ⟨895, 895, 2, 1011⟩,
    ⟨902, 902, 2, 940⟩, ⟨904, 906, 1, 941⟩, ⟨908, 908, 2, 972⟩, ⟨910, 911, 1, 973⟩, ⟨913, 929, 1, 945⟩,
    ⟨931, 939, 1, 963⟩, ⟨975, 975, 2, 983⟩, ⟨984, 1006, 2, 985⟩, ⟨1012, 1012, 2, 952⟩, ⟨1015, 1015, 2, 1016⟩,
    ⟨1017, 1017, 2, 1010⟩, ⟨1018, 1018, 2, 1019⟩, ⟨1021, 1023, 1, 891⟩, ⟨1024, 1039, 1, 1104⟩, ⟨1040, 1071, 1, 1072⟩,
    ⟨1120, 1152, 2, 1121⟩, ⟨1162, 1214, 2, 1163⟩, ⟨1216, 1216, 2, 1231⟩, ⟨1217, 1229, 2, 1218⟩, ⟨1232, 1326, 2, 1233⟩,
    ⟨1329, 1366, 1, 1377⟩, ⟨4256, 4293, 1, 11520⟩, ⟨4295, 4295, 2, 11559⟩, ⟨4301, 4301, 2, 11565⟩,
    ⟨5024, 5103, 1, 43888⟩, ⟨5104, 5109, 1, 5112⟩, ⟨7305, 7305, 2, 7306⟩, ⟨7312, 7354, 1, 4304⟩,
    ⟨7357, 7359, 1, 4349⟩, ⟨7680, 7828, 2, 7681⟩, ⟨7838, 7838, 2, 223⟩, ⟨7840, 7934, 2, 7841⟩, ⟨7944, 7951, 1, 7936⟩,
    ⟨7960, 7965, 1, 7952⟩, ⟨7976, 7983, 1, 7968⟩, ⟨7992, 7999, 1, 7984⟩, ⟨8008, 8013, 1, 8000⟩, ⟨8025, 8031, 2, 8017⟩,
    ⟨8040, 8047, 1, 8032⟩, ⟨8072, 8079, 1, 8064⟩, ⟨8088, 8095, 1, 8080⟩, ⟨8104, 8111, 1, 8096⟩, ⟨8120, 8121, 1, 8112⟩,
    ⟨8122, 8123, 1, 8048⟩, ⟨8124, 8124, 2, 8115⟩, ⟨8136, 8139, 1, 8050⟩, ⟨8140, 8140, 2, 8131⟩, ⟨8152, 8153, 1, 8144⟩,
    ⟨8154, 8155, 1, 8054⟩, ⟨8168, 8169, 1, 8160⟩, ⟨8170, 8171, 1, 8058⟩, ⟨8172, 8172, 2, 8165⟩, ⟨8184, 8185, 1, 8056⟩,
    ⟨8186, 8187, 1, 8060⟩, ⟨8188, 8188, 2, 8179⟩, ⟨8486, 8486, 2, 969⟩, ⟨8490, 8490, 2, 107⟩, ⟨8491, 8491, 2, 229⟩,
    ⟨8498, 8498, 2, 8526⟩, ⟨8544, 8559, 1, 8560⟩, ⟨8579, 8579, 2, 8580⟩, ⟨9398, 9423, 1, 9424⟩,
    ⟨11264, 11311, 1, 11312⟩, ⟨11360, 11360, 2, 11361⟩, ⟨11362, 11362, 2, 619⟩, ⟨11363, 11363, 2, 7549⟩,
    ⟨11364, 11364, 2, 637⟩, ⟨11367, 11371, 2, 11368⟩, ⟨11373, 11373, 2, 593⟩, ⟨11374, 11374, 2, 625⟩,
    ⟨11375, 11375, 2, 592⟩, ⟨11376, 11376, 2, 594⟩, ⟨11378, 11378, 2, 11379⟩, ⟨11381, 11381, 2, 11382⟩,
    ⟨11390, 11391, 1, 575⟩, ⟨11392, 11490, 2, 11393⟩, ⟨11499, 11501, 2, 11500⟩, ⟨11506, 11506, 2, 11507⟩,
    ⟨42560, 42604, 2, 42561⟩, ⟨42624, 42650, 2, 42625⟩, ⟨42786, 42798, 2, 42787⟩, ⟨42802, 42862, 2, 42803⟩,
    ⟨42873, 42875, 2, 42874⟩, ⟨42877, 42877, 2, 7545⟩, ⟨42878, 42886, 2, 42879⟩, ⟨42891, 42891, 2, 42892⟩,
    ⟨42893, 42893, 2, 613⟩, ⟨42896, 42898, 2, 42897⟩, ⟨42902, 42920, 2, 42903⟩, ⟨42922, 42922, 2, 614⟩,
    ⟨42923, 42923, 2, 604⟩, ⟨42924, 42924, 2, 609⟩, ⟨42925, 42925, 2, 620⟩, ⟨42926, 42926, 2, 618⟩,
    ⟨42928, 42928, 2, 670⟩, ⟨42929, 42929, 2, 647⟩, ⟨42930, 42930, 2, 669⟩, ⟨42931, 42931, 2, 43859⟩,
    ⟨42932, 42946, 2, 42933⟩, ⟨42948, 42948, 2, 42900⟩, ⟨42949, 42949, 2, 642⟩, ⟨42950, 42950, 2, 7566⟩,
    ⟨42951, 42953, 2, 42952⟩, ⟨42955, 42955, 2, 612⟩, ⟨42956, 42970, 2, 42957⟩, ⟨42972, 42972, 2, 411⟩,
    ⟨42997, 42997, 2, 42998⟩, ⟨65313, 65338, 1, 65345⟩, ⟨66560, 66599, 1, 66600⟩, ⟨66736, 66771, 1, 66776⟩,
    ⟨66928, 66938, 1, 66967⟩, ⟨66940, 66954, 1, 66979⟩, ⟨66956, 66962, 1, 66995⟩, ⟨66964, 66965, 1, 67003⟩,
    ⟨68736, 68786, 1, 68800⟩, ⟨68944, 68965, 1, 68976⟩, ⟨71840, 71871, 1, 71872⟩, ⟨93760, 93791, 1, 93792⟩,
    ⟨93856, 93880, 1, 93883⟩, ⟨125184, 125217, 1, 125218⟩]

/-- The property `Cased`. -/
def casedRanges : List (Nat × Nat) :=
  [(65, 90), (97, 122), (170, 170), (181, 181), (186, 186), (192, 214), (216, 246), (248, 442), (444, 447), (452, 659),
    (662, 696), (704, 705), (736, 740), (837, 837), (880, 883), (886, 887), (890, 893), (895, 895), (902, 902),
    (904, 906), (908, 908), (910, 929), (931, 1013), (1015, 1153), (1162, 1327), (1329, 1366), (1376, 1416),
    (4256, 4293), (4295, 4295), (4301, 4301), (4304, 4346), (4348, 4351), (5024, 5109), (5112, 5117), (7296, 7306),
    (7312, 7354), (7357, 7359), (7424, 7615), (7680, 7957), (7960, 7965), (7968, 8005), (8008, 8013), (8016, 8023),
    (8025, 8025), (8027, 8027), (8029, 8029), (8031, 8061), (8064, 8116), (8118, 8124), (8126, 8126), (8130, 8132),
    (8134, 8140), (8144, 8147), (8150, 8155), (8160, 8172), (8178, 8180), (8182, 8188), (8305, 8305), (8319, 8319),
    (8336, 8348), (8450, 8450), (8455, 8455), (8458, 8467), (8469, 8469), (8473, 8477), (8484, 8484), (8486, 8486),
    (8488, 8488), (8490, 8493), (8495, 8500), (8505, 8505), (8508, 8511), (8517, 8521), (8526, 8526), (8544, 8575),
    (8579, 8580), (9398, 9449), (11264, 11492), (11499, 11502), (11506, 11507), (11520, 11557), (11559, 11559),
    (11565, 11565), (42560, 42605), (42624, 42653), (42786, 42887), (42891, 42894), (42896, 42972), (42993, 42998),
    (43000, 43002), (43824, 43866), (43868, 43881), (43888, 43967), (64256, 64262), (64275, 64279), (65313, 65338),
    (65345, 65370), (66560, 66639), (66736, 66771), (66776, 66811), (66928, 66938), (66940, 66954), (66956, 66962),
    (66964, 66965), (66967, 66977), (66979, 66993), (66995, 67001), (67003, 67004), (67456, 67456), (67459, 67461),
    (67463, 67504), (67506, 67514), (68736, 68786), (68800, 68850), (68944, 68965), (68976, 68997), (71840, 71903),
    (93760, 93823), (93856, 93880), (93883, 93907), (119808, 119892), (119894, 119964), (119966, 119967),
    (119970, 119970), (119973, 119974), (119977, 119980), (119982, 119993), (119995, 119995), (119997, 120003),
    (120005, 120069), (120071, 120074), (120077, 120084), (120086, 120092), (120094, 120121), (120123, 120126),
    (120128, 120132), (120134, 120134), (120138, 120144), (120146, 120485), (120488, 120512), (120514, 120538),
    (120540, 120570), (120572, 120596), (120598, 120628), (120630, 120654), (120656, 120686), (120688, 120712),
    (120714, 120744), (120746, 120770), (120772, 120779), (122624, 122633), (122635, 122654), (122661, 122666),
    (122928, 122989), (125184, 125251), (127280, 127305), (127312, 127337), (127344, 127369)]

/-- The property `Case_Ignorable`. -/
def caseIgnorableRanges : List (Nat × Nat) :=
  [(39, 39), (46, 46), (58, 58), (94, 94), (96, 96), (168, 168), (173, 173), (175, 175), (180, 180), (183, 184),
    (688, 879), (884, 885), (890, 890), (900, 901), (903, 903), (1155, 1161), (1369, 1369), (1375, 1375),
    (1425, 1469), (1471, 1471), (1473, 1474), (1476, 1477), (1479, 1479), (1524, 1524), (1536, 1541), (1552, 1562),
    (1564, 1564), (1600, 1600), (1611, 1631), (1648, 1648), (1750, 1757), (1759, 1768), (1770, 1773), (1807, 1807),
    (1809, 1809), (1840, 1866), (1958, 1968), (2027, 2037), (2042, 2042), (2045, 2045), (2070, 2093), (2137, 2139),
    (2184, 2184), (2192, 2193), (2199, 2207), (2249, 2306), (2362, 2362), (2364, 2364), (2369, 2376), (2381, 2381),
    (2385, 2391), (2402, 2403), (2417, 2417), (2433, 2433), (2492, 2492), (2497, 2500), (2509, 2509), (2530, 2531),
    (2558, 2558), (2561, 2562), (2620, 2620), (2625, 2626), (2631, 2632), (2635, 2637), (2641, 2641), (2672, 2673),
    (2677, 2677), (2689, 2690), (2748, 2748), (2753, 2757), (2759, 2760), (2765, 2765), (2786, 2787), (2810, 2815),
    (2817, 2817), (2876, 2876), (2879, 2879), (2881, 2884), (2893, 2893), (2901, 2902), (2914, 2915), (2946, 2946),
    (3008, 3008), (3021, 3021), (3072, 3072), (3076, 3076), (3132, 3132), (3134, 3136), (3142, 3144), (3146, 3149),
    (3157, 3158), (3170, 3171), (3201, 3201), (3260, 3260), (3263, 3263), (3270, 3270), (3276, 3277), (3298, 3299),
    (3328, 3329), (3387, 3388), (3393, 3396), (3405, 3405), (3426, 3427), (3457, 3457), (3530, 3530), (3538, 3540),
    (3542, 3542), (3633, 3633), (3636, 3642), (3654, 3662), (3761, 3761), (3764, 3772), (3782, 3782), (3784, 3790),
    (3864, 3865), (3893, 3893), (3895, 3895), (3897, 3897), (3953, 3966), (3968, 3972), (3974, 3975), (3981, 3991),
    (3993, 4028), (4038, 4038), (4141, 4144), (4146, 4151), (4153, 4154), (4157, 4158), (4184, 4185), (4190, 4192),
    (4209, 4212), (4226, 4226), (4229, 4230), (4237, 4237), (4253, 4253), (4348, 4348), (4957, 4959), (5906, 5908),
    (5938, 5939), (5970, 5971), (6002, 6003), (6068, 6069), (6071, 6077), (6086, 6086), (6089, 6099), (6103, 6103),
    (6109, 6109), (6155, 6159), (6211, 6211), (6277, 6278), (6313, 6313), (6432, 6434), (6439, 6440), (6450, 6450),
    (6457, 6459), (6679, 6680), (6683, 6683), (6742, 6742), (6744, 6750), (6752, 6752), (6754, 6754), (6757, 6764),
    (6771, 6780), (6783, 6783), (6823, 6823), (6832, 6877), (6880, 6891), (6912, 6915), (6964, 6964), (6966, 6970),
    (6972, 6972), (6978, 6978), (7019, 7027), (7040, 7041), (7074, 7077), (7080, 7081), (7083, 7085), (7142, 7142),
    (7144, 7145), (7149, 7149), (7151, 7153), (7212, 7219), (7222, 7223), (7288, 7293), (7376, 7378), (7380, 7392),
    (7394, 7400), (7405, 7405), (7412, 7412), (7416, 7417), (7468, 7530), (7544, 7544), (7579, 7679), (8125, 8125),
    (8127, 8129), (8141, 8143), (8157, 8159), (8173, 8175), (8189, 8190), (8203, 8207), (8216, 8217), (8228, 8228),
    (8231, 8231), (8234, 8238), (8288, 8292), (8294, 8303), (8305, 8305), (8319, 8319), (8336, 8348), (8400, 8432),
    (11388, 11389), (11503, 11505), (11631, 11631), (11647, 11647), (11744, 11775), (11823, 11823), (12293, 12293),
    (12330, 12333), (12337, 12341), (12347, 12347), (12441, 12446), (12540, 12542), (40981, 40981), (42232, 42237),
    (42508, 42508), (42607, 42610), (42612, 42621), (42623, 42623), (42652, 42655), (42736, 42737), (42752, 42785),
    (42864, 42864), (42888, 42890), (42993, 42996), (43000, 43001), (43010, 43010), (43014, 43014), (43019, 43019),
    (43045, 43046), (43052, 43052), (43204, 43205), (43232, 43249), (43263, 43263), (43302, 43309), (43335, 43345),
    (43392, 43394), (43443, 43443), (43446, 43449), (43452, 43453), (43471, 43471), (43493, 43494), (43561, 43566),
    (43569, 43570), (43573, 43574), (43587, 43587), (43596, 43596), (43632, 43632), (43644, 43644), (43696, 43696),
    (43698, 43700), (43703, 43704), (43710, 43711), (43713, 43713), (43741, 43741), (43756, 43757), (43763, 43764),
    (43766, 43766), (43867, 43871), (43881, 43883), (44005, 44005), (44008, 44008), (44013, 44013), (64286, 64286),
    (64434, 64450), (65024, 65039), (65043, 65043), (65056, 65071), (65106, 65106), (65109, 65109), (65279, 65279),
    (65287, 65287), (65294, 65294), (65306, 65306), (65342, 65342), (65344, 65344), (65392, 65392), (65438, 65439),
    (65507, 65507), (65529, 65531), (66045, 66045), (66272, 66272), (66422, 66426), (67456, 67461), (67463, 67504),
    (67506, 67514), (68097, 68099), (68101, 68102), (68108, 68111), (68152, 68154), (68159, 68159), (68325, 68326),
    (68900, 68903), (68942, 68942), (68969, 68973), (68975, 68975), (69291, 69292), (69317, 69317), (69370, 69375),
    (69446, 69456), (69506, 69509), (69633, 69633), (69688, 69702), (69744, 69744), (69747, 69748), (69759, 69761),
    (69811, 69814), (69817, 69818), (69821, 69821), (69826, 69826), (69837, 69837), (69888, 69890), (69927, 69931),
    (69933, 69940), (70003, 70003), (70016, 70017), (70070, 70078), (70089, 70092), (70095, 70095), (70191, 70193),
    (70196, 70196), (70198, 70199), (70206, 70206), (70209, 70209), (70367, 70367), (70371, 70378), (70400, 70401),
    (70459, 70460), (70464, 70464), (70502, 70508), (70512, 70516), (70587, 70592), (70606, 70606), (70608, 70608),
    (70610, 70610), (70625, 70626), (70712, 70719), (70722, 70724), (70726, 70726), (70750, 70750), (70835, 70840),
    (70842, 70842), (70847, 70848), (70850, 70851), (71090, 71093), (71100, 71101), (71103, 71104), (71132, 71133),
    (71219, 71226), (71229, 71229), (71231, 71232), (71339, 71339), (71341, 71341), (71344, 71349), (71351, 71351),
    (71453, 71453), (71455, 71455), (71458, 71461), (71463, 71467), (71727, 71735), (71737, 71738), (71995, 71996),
    (71998, 71998), (72003, 72003), (72148, 72151), (72154, 72155), (72160, 72160), (72193, 72202), (72243, 72248),
    (72251, 72254), (72263, 72263), (72273, 72278), (72281, 72283), (72330, 72342), (72344, 72345), (72544, 72544),
    (72546, 72548), (72550, 72550), (72752, 72758), (72760, 72765), (72767, 72767), (72850, 72871), (72874, 72880),
    (72882, 72883), (72885, 72886), (73009, 73014), (73018, 73018), (73020, 73021), (73023, 73029), (73031, 73031),
    (73104, 73105), (73109, 73109), (73111, 73111), (73177, 73177), (73459, 73460), (73472, 73473), (73526, 73530),
    (73536, 73536), (73538, 73538), (73562, 73562), (78896, 78912), (78919, 78933), (90398, 90409), (90413, 90415),
    (92912, 92916), (92976, 92982), (92992, 92995), (93504, 93506), (93547, 93548), (94031, 94031), (94095, 94111),
    (94176, 94177), (94179, 94180), (94194, 94195), (110576, 110579), (110581, 110587), (110589, 110590),
    (113821, 113822), (113824, 113827), (118528, 118573), (118576, 118598), (119143, 119145), (119155, 119170),
    (119173, 119179), (119210, 119213), (119362, 119364), (121344, 121398), (121403, 121452), (121461, 121461),
    (121476, 121476), (121499, 121503), (121505, 121519), (122880, 122886), (122888, 122904), (122907, 122913),
    (122915, 122916), (122918, 122922), (122928, 122989), (123023, 123023), (123184, 123197), (123566, 123566),
    (123628, 123631), (124139, 124143), (124398, 124399), (124643, 124643), (124646, 124646), (124654, 124655),
    (124661, 124661), (124671, 124671), (125136, 125142), (125252, 125259), (127995, 127999), (917505, 917505),
    (917536, 917631), (917760, 917999)]

/-! ## One letter -/

namespace Letters

def has (l : Letters) (n : Nat) : Bool := l.first ≤ n && n ≤ l.last && (n - l.first) % l.step == 0

def lower (l : Letters) (n : Nat) : Nat := l.target + (n - l.first)

/-- No lower case of `l` is one of `m`. -/
def apart (l m : Letters) : Bool :=
  (l.lower l.last).blt m.first || m.last.blt l.target || (l.step == 2 && m.step == 2 && (l.target + m.first) % 2 == 1)

def valid (l : Letters) : Bool := l.lower l.last < 0xd800 || (0xdfff < l.target && l.lower l.last < 0x110000)

theorem target_le_lower (l : Letters) (n : Nat) : l.target ≤ l.lower n := Nat.le_add_right _ _

theorem lower_le {l : Letters} {n : Nat} (has : l.has n) : l.lower n ≤ l.lower l.last := by
  simp only [Letters.has, Bool.and_eq_true, decide_eq_true_eq] at has
  simp only [lower]
  omega

theorem not_has_lower {l m : Letters} (h : l.apart m) {n : Nat} (has : l.has n) : m.has (l.lower n) = false := by
  simp only [apart, Letters.has, Bool.or_eq_true, Bool.and_eq_true, Nat.blt_eq, decide_eq_true_eq, beq_iff_eq] at h has
  rw [Bool.eq_false_iff]
  intro also
  simp only [Letters.has, Bool.and_eq_true, decide_eq_true_eq, beq_iff_eq] at also
  simp only [lower] at h also
  rcases h with (below | above) | ⟨⟨two, two'⟩, odd⟩
  · omega
  · omega
  · rw [two] at has
    rw [two'] at also
    omega

theorem isValidChar_lower {l : Letters} (h : l.valid) {n : Nat} (has : l.has n) : (l.lower n).isValidChar := by
  have low := l.target_le_lower n
  have high := lower_le has
  simp only [valid, Bool.or_eq_true, Bool.and_eq_true, decide_eq_true_eq] at h
  rcases h with below | ⟨above, inside⟩
  · exact .inl (Nat.lt_of_le_of_lt high below)
  · exact .inr ⟨Nat.lt_of_lt_of_le above low, Nat.lt_of_le_of_lt high inside⟩

end Letters

theorem letters_valid : letters.all Letters.valid := by decide

/-- The letters are in order, so only the first that do not end before `n` may have it. -/
def lowerCode (n : Nat) : Nat :=
  match letters.find? (n ≤ ·.last) with
  | some l => if l.has n then l.lower n else n
  | none => n

theorem lowerCode_eq (n : Nat) : lowerCode n = n ∨ ∃ l ∈ letters, l.has n ∧ lowerCode n = l.lower n := by
  unfold lowerCode
  split
  · rename_i l found
    split
    · rename_i has
      exact .inr ⟨l, List.mem_of_find?_eq_some found, has, rfl⟩
    · exact .inl rfl
  · exact .inl rfl

def lowerLetter (c : Char) : Char := .ofNat (lowerCode c.toNat)

theorem toNat_lowerLetter (c : Char) : (lowerLetter c).toNat = lowerCode c.toNat := by
  have valid : (lowerCode c.toNat).isValidChar := by
    rcases lowerCode_eq c.toNat with same | ⟨l, hl, has, lower⟩
    · rw [same]
      exact c.valid
    · rw [lower]
      exact Letters.isValidChar_lower (List.all_eq_true.mp letters_valid l hl) has
  rw [lowerLetter, Char.ofNat, dif_pos valid]
  rfl

/-- On ASCII this is the lower case of the language. -/
theorem lowerLetter_ascii {c : Char} (h : c.toNat < 128) : lowerLetter c = c.toLower := by
  have each : (List.range 128).all fun n => decide (Char.ofNat (lowerCode n) = (Char.ofNat n).toLower) := by decide
  have this := List.all_eq_true.mp each c.toNat (List.mem_range.mpr h)
  rwa [decide_eq_true_eq, Char.ofNat_toNat] at this

/-- The two letters with a rule of their own are no lower case, and what the rules give is. -/
theorem lowerLetter_exceptions : lowerLetter '\u03a3' ≠ '\u03a3' ∧ lowerLetter '\u0130' ≠ '\u0130' ∧
    lowerLetter '\u03c2' = '\u03c2' ∧ lowerLetter '\u03c3' = '\u03c3' ∧ lowerLetter 'i' = 'i' ∧
    lowerLetter '\u0307' = '\u0307' := by
  decide

theorem letters_apart : letters.all fun l => letters.all l.apart := by decide +kernel

theorem lowerCode_lowerCode (n : Nat) : lowerCode (lowerCode n) = lowerCode n := by
  rcases lowerCode_eq n with same | ⟨l, hl, has, lower⟩
  · rw [same, same]
  · rcases lowerCode_eq (lowerCode n) with same | ⟨m, hm, also, _⟩
    · exact same
    · have apart := List.all_eq_true.mp (List.all_eq_true.mp letters_apart l hl) m hm
      rw [lower, Letters.not_has_lower apart has] at also
      cases also

theorem lowerLetter_lowerLetter (c : Char) : lowerLetter (lowerLetter c) = lowerLetter c := by
  rw [lowerLetter, toNat_lowerLetter, lowerCode_lowerCode, lowerLetter]

/-- What no letter has for its lower case keeps its own. -/
theorem lowerLetter_of_targets {P : Nat → Prop} (targets : ∀ l ∈ letters, ∀ n, l.target ≤ n → n ≤ l.lower l.last → ¬ P n)
    {c : Char} (h : P (lowerLetter c).toNat) : lowerLetter c = c := by
  rcases lowerCode_eq c.toNat with same | ⟨l, hl, has, lower⟩
  · rw [lowerLetter, same, Char.ofNat_toNat]
  · rw [toNat_lowerLetter, lower] at h
    exact absurd h (targets l hl _ (l.target_le_lower _) (Letters.lower_le has))

/-! ## A text -/

def within (ranges : List (Nat × Nat)) (c : Char) : Bool := ranges.any fun r => r.1 ≤ c.toNat && c.toNat ≤ r.2

/-- The next letter is cased, when those that have no case of their own are skipped. -/
def casedNext (cs : List Char) : Bool :=
  match cs.dropWhile (within caseIgnorableRanges) with
  | [] => false
  | c :: _ => within casedRanges c

/-- `before` is read backwards. -/
def lowerAt (before : List Char) (c : Char) (after : List Char) : List Char :=
  if c = '\u03a3' then [if casedNext before && !casedNext after then '\u03c2' else '\u03c3']
  else if c = '\u0130' then ['i', '\u0307']
  else [lowerLetter c]

def lower : List Char → List Char → List Char
  | _, [] => []
  | before, c :: cs => lowerAt before c cs ++ lower (c :: before) cs

theorem lowerAt_ne_nil (before : List Char) (c : Char) (after : List Char) : lowerAt before c after ≠ [] := by
  unfold lowerAt
  split
  · simp
  · split <;> simp

/-- A lower-case letter is its own lower case, wherever it stands. -/
def IsLower (c : Char) : Prop := ∀ before after, lowerAt before c after = [c]

theorem isLower_of_lowerLetter {c : Char} (h : lowerLetter c = c) : IsLower c := by
  intro before after
  have sigma : c ≠ '\u03a3' := by
    rintro rfl
    exact lowerLetter_exceptions.1 h
  have dotted : c ≠ '\u0130' := by
    rintro rfl
    exact lowerLetter_exceptions.2.1 h
  rw [lowerAt, if_neg sigma, if_neg dotted, h]

theorem isLower_of_mem {before after : List Char} {c d : Char} (h : d ∈ lowerAt before c after) : IsLower d := by
  obtain ⟨_, _, final, medial, dotless, dot⟩ := lowerLetter_exceptions
  apply isLower_of_lowerLetter
  unfold lowerAt at h
  split at h
  · obtain rfl := List.mem_singleton.mp h
    split
    · exact final
    · exact medial
  split at h
  · rcases List.mem_pair.mp h with rfl | rfl
    · exact dotless
    · exact dot
  · obtain rfl := List.mem_singleton.mp h
    exact lowerLetter_lowerLetter c

theorem lower_eq_self {cs : List Char} (h : ∀ c ∈ cs, IsLower c) (before : List Char) : lower before cs = cs := by
  induction cs generalizing before with
  | nil => rfl
  | cons c cs ih =>
      rw [lower, h c List.mem_cons_self, ih fun d hd => h d (List.mem_cons_of_mem c hd)]
      rfl

theorem isLower_lower {cs before : List Char} {d : Char} (h : d ∈ lower before cs) : IsLower d := by
  induction cs generalizing before with
  | nil => cases h
  | cons c cs ih =>
      rcases List.mem_append.mp h with here | later
      · exact isLower_of_mem here
      · exact ih later

theorem lower_lower (before before' cs : List Char) : lower before (lower before' cs) = lower before' cs :=
  lower_eq_self (fun _ => isLower_lower) before

theorem lower_ascii {cs : List Char} (h : ∀ c ∈ cs, c.toNat < 128) (before : List Char) :
    lower before cs = cs.map Char.toLower := by
  induction cs generalizing before with
  | nil => rfl
  | cons c cs ih =>
      have ascii := h c List.mem_cons_self
      have sigma : c ≠ '\u03a3' := by
        rintro rfl
        revert ascii
        decide
      have dotted : c ≠ '\u0130' := by
        rintro rfl
        revert ascii
        decide
      rw [lower, lowerAt, if_neg sigma, if_neg dotted, lowerLetter_ascii ascii,
        ih fun d hd => h d (List.mem_cons_of_mem c hd)]
      rfl

/-- The lower case of a text ends in that of its last letter. -/
theorem lower_concat (before cs : List Char) (c : Char) :
    ∃ front, lower before (cs ++ [c]) = front ++ lowerAt (cs.reverse ++ before) c [] := by
  induction cs generalizing before with
  | nil => exact ⟨[], by simp [lower]⟩
  | cons d cs ih =>
      obtain ⟨front, last⟩ := ih (d :: before)
      refine ⟨lowerAt before d (cs ++ [c]) ++ front, ?_⟩
      rw [List.cons_append, lower, last, List.reverse_cons, List.append_assoc, List.append_assoc, List.singleton_append]

end LowerCase
