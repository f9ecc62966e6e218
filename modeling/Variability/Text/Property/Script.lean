import Variability.Text.Property.Table

/-!
Scripts. A character belongs to one script; the extended scripts of a character are all those that
it is used in. The tables follow Unicode 15.
-/

namespace Variability.Text.Property

/-- The scripts and their names, in the order of their numbers in the tables. -/
def scriptNames : List (List String) :=
  [["Adlam", "Adlm"], ["Ahom"], ["Anatolian_Hieroglyphs", "Hluw"], ["Arabic", "Arab"],
    ["Armenian", "Armn"], ["Avestan", "Avst"], ["Balinese", "Bali"], ["Bamum", "Bamu"],
    ["Bassa_Vah", "Bass"], ["Batak", "Batk"], ["Bengali", "Beng"], ["Bhaiksuki", "Bhks"],
    ["Bopomofo", "Bopo"], ["Brahmi", "Brah"], ["Braille", "Brai"], ["Buginese", "Bugi"],
    ["Buhid", "Buhd"], ["Canadian_Aboriginal", "Cans"], ["Carian", "Cari"],
    ["Caucasian_Albanian", "Aghb"], ["Chakma", "Cakm"], ["Cham"], ["Cherokee", "Cher"],
    ["Chorasmian", "Chrs"], ["Common", "Zyyy"], ["Coptic", "Copt", "Qaac"], ["Cuneiform", "Xsux"],
    ["Cypriot", "Cprt"], ["Cypro_Minoan", "Cpmn"], ["Cyrillic", "Cyrl"], ["Deseret", "Dsrt"],
    ["Devanagari", "Deva"], ["Dives_Akuru", "Diak"], ["Dogra", "Dogr"], ["Duployan", "Dupl"],
    ["Egyptian_Hieroglyphs", "Egyp"], ["Elbasan", "Elba"], ["Elymaic", "Elym"],
    ["Ethiopic", "Ethi"], ["Georgian", "Geor"], ["Glagolitic", "Glag"], ["Gothic", "Goth"],
    ["Grantha", "Gran"], ["Greek", "Grek"], ["Gujarati", "Gujr"], ["Gunjala_Gondi", "Gong"],
    ["Gurmukhi", "Guru"], ["Han", "Hani"], ["Hangul", "Hang"], ["Hanifi_Rohingya", "Rohg"],
    ["Hanunoo", "Hano"], ["Hatran", "Hatr"], ["Hebrew", "Hebr"], ["Hiragana", "Hira"],
    ["Imperial_Aramaic", "Armi"], ["Inherited", "Zinh", "Qaai"],
    ["Inscriptional_Pahlavi", "Phli"], ["Inscriptional_Parthian", "Prti"], ["Javanese", "Java"],
    ["Kaithi", "Kthi"], ["Kannada", "Knda"], ["Katakana", "Kana"], ["Kawi"], ["Kayah_Li", "Kali"],
    ["Kharoshthi", "Khar"], ["Khitan_Small_Script", "Kits"], ["Khmer", "Khmr"],
    ["Khojki", "Khoj"], ["Khudawadi", "Sind"], ["Lao", "Laoo"], ["Latin", "Latn"],
    ["Lepcha", "Lepc"], ["Limbu", "Limb"], ["Linear_A", "Lina"], ["Linear_B", "Linb"], ["Lisu"],
    ["Lycian", "Lyci"], ["Lydian", "Lydi"], ["Mahajani", "Mahj"], ["Makasar", "Maka"],
    ["Malayalam", "Mlym"], ["Mandaic", "Mand"], ["Manichaean", "Mani"], ["Marchen", "Marc"],
    ["Masaram_Gondi", "Gonm"], ["Medefaidrin", "Medf"], ["Meetei_Mayek", "Mtei"],
    ["Mende_Kikakui", "Mend"], ["Meroitic_Cursive", "Merc"], ["Meroitic_Hieroglyphs", "Mero"],
    ["Miao", "Plrd"], ["Modi"], ["Mongolian", "Mong"], ["Mro", "Mroo"], ["Multani", "Mult"],
    ["Myanmar", "Mymr"], ["Nabataean", "Nbat"], ["Nag_Mundari", "Nagm"], ["Nandinagari", "Nand"],
    ["New_Tai_Lue", "Talu"], ["Newa"], ["Nko", "Nkoo"], ["Nushu", "Nshu"],
    ["Nyiakeng_Puachue_Hmong", "Hmnp"], ["Ogham", "Ogam"], ["Ol_Chiki", "Olck"],
    ["Old_Hungarian", "Hung"], ["Old_Italic", "Ital"], ["Old_North_Arabian", "Narb"],
    ["Old_Permic", "Perm"], ["Old_Persian", "Xpeo"], ["Old_Sogdian", "Sogo"],
    ["Old_South_Arabian", "Sarb"], ["Old_Turkic", "Orkh"], ["Old_Uyghur", "Ougr"],
    ["Oriya", "Orya"], ["Osage", "Osge"], ["Osmanya", "Osma"], ["Pahawh_Hmong", "Hmng"],
    ["Palmyrene", "Palm"], ["Pau_Cin_Hau", "Pauc"], ["Phags_Pa", "Phag"], ["Phoenician", "Phnx"],
    ["Psalter_Pahlavi", "Phlp"], ["Rejang", "Rjng"], ["Runic", "Runr"], ["Samaritan", "Samr"],
    ["Saurashtra", "Saur"], ["Sharada", "Shrd"], ["Shavian", "Shaw"], ["Siddham", "Sidd"],
    ["SignWriting", "Sgnw"], ["Sinhala", "Sinh"], ["Sogdian", "Sogd"], ["Sora_Sompeng", "Sora"],
    ["Soyombo", "Soyo"], ["Sundanese", "Sund"], ["Syloti_Nagri", "Sylo"], ["Syriac", "Syrc"],
    ["Tagalog", "Tglg"], ["Tagbanwa", "Tagb"], ["Tai_Le", "Tale"], ["Tai_Tham", "Lana"],
    ["Tai_Viet", "Tavt"], ["Takri", "Takr"], ["Tamil", "Taml"], ["Tangsa", "Tnsa"],
    ["Tangut", "Tang"], ["Telugu", "Telu"], ["Thaana", "Thaa"], ["Thai"], ["Tibetan", "Tibt"],
    ["Tifinagh", "Tfng"], ["Tirhuta", "Tirh"], ["Toto"], ["Ugaritic", "Ugar"], ["Vai", "Vaii"],
    ["Vithkuqi", "Vith"], ["Wancho", "Wcho"], ["Warang_Citi", "Wara"], ["Yezidi", "Yezi"],
    ["Yi", "Yiii"], ["Zanabazar_Square", "Zanb"]]

def emptyScriptNames : List String :=
  ["Unknown", "Zzzz", "Katakana_Or_Hiragana", "Hrkt"]

/-- The scripts of all characters in order; the number behind the last is no script. -/
def scriptRuns : List String :=
  ["k1h8hak66h8hak6ifh81k6fh81k65h8h7k61h8hfk61h8hs1k6i7h85k65h82ch4h8n0j74ib1h83ib2q34ib1h81ib4q",
    "31ib1h81ib1h83ib1q31ib1q3h4ib1q3jfibeh9h0ibo5hd2j7q9hd1q3i642q3j242q3341q3j7j48q3hbj44q36j4bq",
    "3531h8631h8e31h8331h8i031h8a3bj7ha31j7mc31h8i23eoa1q3jcoa2q33oaj03j2p5eq3jbm52q33m5iene2q3fne",
    "1q3hcl12q31l11q3boa5q3hf31q3236q3ka31h8hd3l1hf4j7fhf2h8hahf4a1q38a2q32a2q3h6a1q37a1q31a3q34a2",
    "q39a2q32a2q34a8q31a4q32a1q35a2q3h9a2q33ie1q36ie4q32ie2q3h6ie1q37ie1q32ie1q32ie1q32ie2q31ie1q3",
    "5ie4q32ie2q33ie3q31ie7q34ie1q31ie7q3h1ieaq33ic1q39ic1q33ic1q3h6ic1q37ic1q32ic1q35ic2q3aic1q33",
    "ic1q33ic2q31icfq34ic2q3cic7q37ic1q33n31q38n32q32n32q3h6n31q37n31q32n31q35n32q39n32q32n32q33n3",
    "7q33n34q32n31q35n32q3h2n3aq32p11q36p13q33p11q34p13q32p11q31p11q32p13q32p13q33p13q3cp14q35p13q",
    "33p11q34p12q31p16q31p1eq3h5p15q3dp41q33p41q3h7p41q3h0p42q39p41q33p41q34p47q32p41q33p42q31p42q",
    "34p42q3ap47q39p4djc1q33jc1q3h7jc1q3ajc1q35jc2q39jc1q33jc1q34jc7q32jc6q32jc1q34jc2q3ajc1q33jcc",
    "q3dl01q33l01q3j3l01q33l01q36l04q3h0l02q3hal01q33o41q3h2o43q3h8o41q39o41q31o42q37o43q31o44q36o",
    "41q31o41q38o46q3ao42q33o4cq3jap64q31h8hcp6i5q32k51q31k51q35k51q3h8k51q31k51q3h7k52q35k51q31k5",
    "1q37k51q3ak52q34k5i0q3k8p71q3i4p74q3i7p71q3i4p71q3fp71q37p74h82p7i5q3q0lfi6i71q31i75q31i72q3i",
    "bi71h84i7hg0j0k9i61q34i62q37i61q31i61q34i62q3i9i61q34i62q3i1i61q34i62q37i61q31i61q34i62q3fi61",
    "q3j9i61q34i62q3k3i62q3i0i63q3hai66q3l6h62q36h62q3io0h1hdm83q3kbnd3h8bnd7q3h6ob9q31obh5j22h89q",
    "3h4h0cq3doc1q33oc1q32occq3lek22q3ak26q3ak26q32lc2h81lc1h8h4lc6q3l9lc7q3iblc5q3k6h1aq3hfk81q3c",
    "k84q3ck84q31k83q3ck8heod2q35odbq3icm34q3ham36q3bm33q32m3i0k2hcf2q32fjfoe1q3hdoe2q3boe6q3aoe6q",
    "3eoe2q3hfj7j1q3kd63q3if61q3k0o8j498q349j8k73q3fk73q33k7j0m99hd7q3ibi72q33i78o88q33j71h8dj71h8",
    "7j74h81j76h81j73h82j71h85q3i6k65ib1hdj1k65ib4k65ibdk61hdk6k61ibk0j7hg0k6h6ib2q36ib2q3i6ib2q36",
    "ib2q38ib1q31ib1q31ib1q31ib1q3hfib2q3j5ib1q3fib1q3eib2q36ib1q3h3ib2q33ib1q39ib1q3ch82j7l7h81q3",
    "bh81k62q3bh81k6fh81q3dk63q3i1h8fq3i1j7fq3i6h81ib3h82k66h81k6hbh81k6h1h8i9k63h84q3ip7h8h9q3bh8",
    "h5q3jq0h8hg0ein4h82q3i0h81q3m9h8m0i8i0k6n4h95q37h9i6i71q31i75q31i72q3j8p87q32p8eq31p8h7i69q37",
    "i61q37i61q37i61q37i61q37i61q37i61q37i61q37i61q3i0hdleh8i2q3haif1q3l9ifcq3t6ifhaq3ch84q35h81if",
    "1h81ifh9h89if4j72j08h84if4h81q3l6j52q32j72h83j51h8lajd2h83jd5q3ibc1q3lej01q3h0h8i0ci4h8cq3h0j",
    "dhfj01q3k0h8hfj0l1h8ifjd1h8l8jdq8h8hps0ifk0h8lig0ifkodq13q3j7q19q3j0kbhicpch4q3m0hdl878q3i2h8",
    "m6k63h8k0k65q32k61q31k61q35k6h8q3ek6ido93q3ah86q3j8n98q3k6nf8q3cnf6q3i0hfiejf1h81jfi4ncbq31nc",
    "hdj03q3keja1q31h8aja4q32jahflf1q3j7h59q3eh52q3ah52q34h5i0lfk3ofh8q35ofh7l6aq36i62q36i62q36i69",
    "q37i61q37i61q3ibk61h89k61ib4k62h84q3l0h6iel62q3al66q3irq4j0cq3h7j04q3j1j0ihg4q3hmeif2q3maifi6",
    "q37k6cq3545q3haj41q35j41q31j41q32j41q32j41q3aj4n33h0q3hmb32h8l032q3j637q313i0q3h03h0j7ah86q3e",
    "j72hdi3h81q3h3h81q34h84q3531q3o732q31h81q3i0h8hak66h8hak6bh8ajd1h8idjd2h8hfj03q36j02q36j02q36",
    "j02q33j03q37h81q37h8aq35h82q3cka1q3haka1q3h3ka1q32ka1q3fka2q3ekai2q3nbka5q33h84q3idh83q39h8kf",
    "ib1q3dh83q31ibifq3idh81j7o2q3hdkc3q3j1h2fq31j7hbh84q3i4mb9q33mbhbi95q3ibmd5q3hepb1q31pbi4me4q",
    "3emeiaq3l0hej0o1hen52q3an56q3i4n44q3i4n44q3i8i48q3j4h3bq31h3bpd1q3fpd1q37pd1q32pd1q3bpd1q3fpd",
    "1q37pd1q32pdk3q3hj7k99q3h6k9aq38k9h8q36k61q3iak61q39k6k5q36hb2q31hb1q3ichb1q32hb3q31hb2q31hbh",
    "6j61q39j6i0n7hfm08q39m0j0q3h3j31q32j35q35j3hcna3q31nahakd5q31kdk0q3i0l9h8l84q3h4l82q3iel84k01",
    "q32k05q38k01q33k01q3hdk02q33k04q3ak07q39k07q3i0n0i0mci0q3i7l24q3cl29q3j653q375h6j92q38j9h3j85",
    "q38j8h2nb7q34nbcq37nbl0q3k9n1j7q3j3madq3j3ma7q36mai8j18q3aj1hi6q3hf31q3iaq01q33q02q32q0kbq333",
    "i8mf8q3iao5h6q3han2i6q3hch7h4q3h7i59q3ked4q3i4d9q31dk3jbaq31jb2q3h9o67q3ao66q3j5h41q3h2h48q3i",
    "7ke9q3m0o01q3h4o4bq3h2k31q3ifk3jeq37le1q31le1q34le1q3fle1q3ble6q3jbk45q3ak46q34ia1q38ia2q32ia",
    "2q3h6ia1q37ia1q32ia1q35ia1q31j79ia2q32ia2q33ia2q31ia6q31ia5q37ia2q37ia3q35iaobq3lcm41q35m4heq",
    "3k8p98q3ap9q6q3j6o22q3i6o2i2q3k5lbbq3alb6q3dlch3q3jap06q3ap0j6q3hb12q3f14q3h71r9q3jci1m4q3l3p",
    "fcq31pf7i02q31i02q38i01q32i01q3hei01q32i02q3ci09q3ai0k6q38m22q3iem22q3bm2hbq3k8q28q3l3o7dq3h0",
    "h1j9n87q3ahfv6q39b1q3idb1q3ebaq3hdb3q3i0l32q3h6l31q3el3k9q37l41q32l41q3icl43q31l41q32l41q39l4",
    "8q3al46q36id1q32id1q3i5id1q32id1q36id7q3aidhj6q3h9kf7q3h1je1q3i9je3q3hcjel6q31kbfq3j2p1dq31p1",
    "jpaham6q3mfha1q35habq3s4haqkcq3m3hcdq3kl6i3vqaq3ik72ihr9q3ij977q3hfld1q3ald4q32ldkfp21q3ap26q",
    "3he82q368aq3k6n6aq3an61q37n61q3h5n65q3h3n6ir0q3lbl5m5q3kbla4q3j9la7q3h1lak0q31p31m62if1k1bq32",
    "ifeq3hnv8p38q3jg0p3ht6k1iaq39p3iiu7q34jd1q37jd1q32jd1q31jdhhfj53jdfq31j5hdq33j52q31jdeq34jd8q",
    "3hocm6pg4q3mbi25q3di23q39i27q3ai22q34i24h8hilcq3iej72q3h7j79q3n4h8jcq3v6h8aq3i7h82q3jeh83j7h1",
    "h88j72h87j7heh84j7jdh8h5q3k6ibnaq3h4h8cq3h4h8cq3l7h89q3h9h8o7q3l5h81q3k7h81q32h82q31h82q32h82",
    "q34h81q3ch81q31h81q37h81q3k1h81q34h82q38h81q37h81q3hch81q34h81q35h81q31h83q37h81q3hl4h82q3hi4",
    "h82q3j2h8ioco3fq35o31q3fo3kl0q3hfk66q36k6t5q37i81q3h1i82q37i81q32i81q35i85q3jehdi1q31hdn0q3id",
    "m73q3em72q3am74q32m7hk0q3hfpah1q3jape5q31peht0q3iam1iu6q37i61q34i61q32i61q3fi61q3s5l72q3h0l7i",
    "9q3kc04q3a04q320jh1q3k4h8kcq3jdh8s2q3431q3hb31q3231q3132q3131q3a31q3431q3131q3136q3134q3131q3",
    "131q3131q3331q3231q3132q3131q3131q3131q3131q3131q3231q3132q3431q3731q3431q3431q3131q3a31q3h13",
    "5q3331q3531q3h13j4q323hgeq3ich84q3m4h8cq3fh82q3fh81q3fh81q3i5h8aq3qeh8j8q3hah81j52h8dq3ich84q",
    "39h87q32h8eq36h8paq3jt8h84q3h1h83q3dh83q3n7h84q3lfh86q3ch84q31h8fq3ch84q3j8h88q3ah86q3i8h88q3",
    "heh82q32h8keq3hl4h8cq3eh82q3dh83q39h87q3ieh81q37h88q3eh84q39h87q39h87q3p3h81q3j7h8i5q3ah8kg6q",
    "3qmu0ifi0q3hgjaif6q3teif2q3hmo2ifeq3htj1ifshfq3iheiflu2q3hjkbif5q3hgm0ifqtsl1q31h8heq3m0h8o0q",
    "3v0j7ivuh0q3"]

/-- Sets of several scripts that characters are used in together. -/
def scriptSets : List (List Nat) :=
  [[0, 3, 49, 81, 82, 114, 123, 133, 138], [0, 3, 49, 101, 138, 149, 160], [3, 25], [3, 49],
    [3, 49, 101, 138, 149, 160], [3, 101], [3, 138], [3, 138, 149], [3, 149], [3, 149, 160],
    [10, 20, 137], [10, 31],
    [10, 31, 33, 42, 44, 45, 46, 60, 68, 72, 78, 80, 84, 98, 115, 132, 137, 144, 145, 148, 153],
    [10, 31, 33, 42, 44, 45, 46, 60, 68, 78, 80, 84, 98, 115, 132, 137, 144, 145, 148, 153],
    [10, 31, 42, 44, 46, 60, 70, 80, 115, 128, 145, 148, 153],
    [10, 31, 42, 44, 46, 60, 70, 80, 115, 145, 148, 153], [10, 31, 42, 60],
    [10, 31, 42, 60, 98, 115, 148, 153], [12, 47], [12, 47, 48, 53, 61],
    [12, 47, 48, 53, 61, 161], [15, 58], [16, 50, 139, 140], [20, 95, 141], [27, 28, 74],
    [27, 73, 74], [27, 74], [29, 40], [29, 70], [29, 109], [29, 138],
    [31, 33, 44, 46, 59, 60, 67, 68, 78, 80, 91, 98, 144, 153],
    [31, 33, 44, 46, 59, 60, 67, 68, 78, 91, 98, 144, 153],
    [31, 33, 44, 46, 59, 67, 68, 78, 91, 144, 153], [31, 33, 59, 78], [31, 42], [31, 42, 60],
    [31, 42, 70], [31, 60, 80, 115, 145, 148], [31, 98], [31, 128], [31, 145], [39, 70],
    [42, 145], [44, 67], [46, 94], [47, 53, 61], [47, 70], [53, 61], [60, 98], [63, 70, 95],
    [70, 92], [82, 114], [92, 121]]

/-- The extended scripts of all characters in order; numbers behind the one for no script are those
of the sets. -/
def extendedScriptRuns : List String :=
  ["k1h8hak66h8hak6ifh81k6fh81k65h8h7k61h8hfk61h8hs1k6i7h85k65h82ch4h8k2j71ib2j71ibhdj7dk64ib1h83",
    "ib2q34ib1h81ib4q31ib1h81ib1h83ib1q31ib1q3h4ib1q3jfibeh9h0ibo3hd1s11rf2s01rfq8hd1q3i642q3j242q",
    "3341q3j7j48q3hbj44q36j4bq3531h8631q8e31q81qb231q5i031q4a3bqaa3aqd631qam331q7831h8i23eoa1q3jco",
    "a2q33oaj03j2p5eq3jbm52q33m5iene2q3fne1q3hcl12q31l11q3boa5q3hf31q3236q3ka31h8hd3l1hf1r21r32j7f",
    "hf1r11r0as6h0hf4a1q38a2q32a2q3h6a1q37a1q31a3q34a2q39a2q32a2q34a8q31a4q32a1q35a2q3aqefa2q33ie1",
    "q36ie4q32ie2q3h6ie1q37ie1q32ie1q32ie1q32ie2q31ie1q35ie4q32ie2q33ie3q31ie7q34ie1q31ie7q3at17ie",
    "aq33ic1q39ic1q33ic1q3h6ic1q37ic1q32ic1q35ic2q3aic1q33ic1q33ic2q31icfq34ic2q3at02ic7q37ic1q33n",
    "31q38n32q32n32q3h6n31q37n31q32n31q35n32q39n32q32n32q33n37q33n34q32n31q35n32q3h2n3aq32p11q36p1",
    "3q33p11q34p13q32p11q31p11q32p13q32p13q33p13q3cp14q35p13q33p11q34p12q31p16q31p1eq3esf7p15q3dp4",
    "1q33p41q3h7p41q3h0p42q39p41q33p41q34p47q32p41q33p42q31p42q34p42q3ap47q39p4djc1q33jc1q3h7jc1q3",
    "ajc1q35jc2q39jc1q33jc1q34jc7q32jc6q32jc1q34jc2q3at51q33jccq3dl01q33l01q3j3l01q33l01q36l04q3h0",
    "l02q3hal01q33o41q3h2o43q3h8o41q39o41q31o42q37o43q31o44q36o41q31o41q38o46q3ao42q33o4cq3jap64q3",
    "1h8hcp6i5q32k51q31k51q35k51q3h8k51q31k51q3h7k52q35k51q31k51q37k51q3ak52q34k5i0q3k8p71q3i4p74q",
    "3i7p71q3i4p71q3fp71q37p74h82p7i5q3k0lfarbl6lfi6i71q31i75q31i72q3ibi71se4i7hg0j0k9i61q34i62q37",
    "i61q31i61q34i62q3i9i61q34i62q3i1i61q34i62q37i61q31i61q34i62q3fi61q3j9i61q34i62q3k3i62q3i0i63q",
    "3hai66q3l6h62q36h62q3io0h1hdm83q3kbnd3h8bnd7q3h6ob9q31obh5j22ra9q3h4h0cq3doc1q33oc1q32occq3le",
    "k22q3ak26q3ak26q32lc2t91lc1t9h4lc6q3l9lc7q3iblc5q3k6h1aq3hfk81q3ck84q3ck84q31k83q3ck8heod2q35",
    "odbq3icm34q3ham36q3bm33q32m3i0k2hcf2q32fjfoe1q3hdoe2q3boe6q3aoe6q3eoe2q3hfj7j1q3kd63q3if61q3k",
    "0o8j498q349j8k73q3fk73q33k7j0m99hd7q3ibi72q33i78o88q31r41hf1r41s71hf2qf1sc1qf1sc1sa1hf2sc2hf1",
    "sc1qf7hf1sb1qf2hf1qf4hf1r51s71s82qf1a2s71m25q3i6k65ib1hdj1k65ib4k65ibdk61hdk6k63ibj6j71s21j71",
    "oa5j7hg0k6h6ib2q36ib2q3i6ib2q36ib2q38ib1q31ib1q31ib1q31ib1q3hfib2q3j5ib1q3fib1q3eib2q36ib1q3h",
    "3ib2q33ib1q39ib1q3ch82j7i1h81t7j5h81q3bh81k62q3bh81k6fh81q3dk63q3i1h8fq3i0j71s9fq3i6h81ib3h82",
    "k66h81k6hbh81k6h1h8i9k63h84q3ip7h8h9q3bh8h5q3jq0h8hg0ein4h82q3i0h81q3m9h8m0i8i0k6n4h95q37h9i6",
    "i71q31i75q31i72q3j8p87q32p8eq31p8h7i69q37i61q37i61q37i61q37i61q37i61q37i61q37i61q37i61q3i0hdk",
    "3h81rfhah8i2q3haif1q3l9ifcq3t6ifhaq3ch84q31h82r81r71h83ifar81h81r78r84r71h89if4r62j01r75t41h8",
    "1r74if2t22if1q3l6j52q34t43j51t4lajd1r81t43jd5q3ibc1q3lej01q3h0ifi0ci4ifcq3h0jdhfj01q3i8ifh8h8",
    "hfj01h8j1iffh8cif4h8ifjd1ifl8jdh9ifah85ifm0h8hfif1h8hps0ifk0h8lig0ifkodq13q3j7q19q3j0kbhicpch",
    "4q3ifhd1rfj0hdl878q38t3hah8m6k63h8k0k65q32k61q31k61q35k6h8q3ek6ido93q33s33s44s56q3j8n98q3k6nf",
    "8q3cnf6q3h1hf1qf1hf1sdchfiejf1t61jfi4ncbq31nchdj03q3keja1q31r9aja4q32jahflf1q3j7h59q3eh52q3ah",
    "52q34h5i0lfk3ofh8q35ofh7l6aq36i62q36i62q36i69q37i61q37i61q3ibk61h89k61ib4k62h84q3l0h6iel62q3a",
    "l66q3irq4j0cq3h7j04q3j1j0ihg4q3hmeif2q3maifi6q37k6cq3545q3haj41q35j41q31j41q32j41q32j41q3aj4n",
    "33h0q3hmb32q9l032q3j637q313i0q3231qca31qc23h0j7ah86q3ej72hdh5h82r7ch81q3h3h81q34h84q3531q3o73",
    "2q31h81q3i0h8hak66h8hak66h85r8ajd1t4idjd2t4hfj03q36j02q36j02q36j02q33j03q37h81q37h8aq35h82q3c",
    "ka1q3haka1q3h3ka1q32ka1q3fka2q3ekai2q3nbka5q32rc1re4q3idrd3q39rekfib1q3dh83q31ibifq3idh81j7o2",
    "q3hdkc3q3j1h2fq3hcq64q3i4mb9q33mbhbi95q3ibmd5q3hepb1q31pbi4me4q3emeiaq3l0hej0o1hen52q3an56q3i",
    "4n44q3i4n44q3i8i48q3j4h3bq31h3bpd1q3fpd1q37pd1q32pd1q3bpd1q3fpd1q37pd1q32pdk3q3hj7k99q3h6k9aq",
    "38k9h8q36k61q3iak61q39k6k5q36hb2q31hb1q3ichb1q32hb3q31hb2q31hbh6j61q39j6i0n7hfm08q39m0j0q3h3j",
    "31q32j35q35j3hcna3q31nahakd5q31kdk0q3i0l9h8l84q3h4l82q3iel84k01q32k05q38k01q33k01q3hdk02q33k0",
    "4q3ak07q39k07q3i0n0i0mci0q3i7l24q37l21t84l29q3j653q375h6j92q38j9h3j85q38j8h2nb7q34nbcq37nbl0q",
    "3k9n1j7q3j3madq3j3ma7q36mai8j18q3aj1hi6q3hf31q3iaq01q33q02q32q0kbq333i8mf8q3iao5h6q3han2i6q3h",
    "ch7h4q3h7i59q3ked4q3i4d9q31dk3jbaq31jb2q3h9o67q3ao66q3j5h41q3h2h48q3i7ke9q3m0o01q3h4o4bq3h2k3",
    "1q3ifk3jeq37le1q31le1q34le1q3fle1q3ble6q3jbk45q3ak46q31ia1sf1ia1sf1q38ia2q32ia2q3h6ia1q37ia1q",
    "32ia1q35ia1q32sf8ia2q32ia2q33ia2q31ia6q31ia5q37ia2q37ia3q35iaobq3lcm41q35m4heq3k8p98q3ap9q6q3",
    "j6o22q3i6o2i2q3k5lbbq3alb6q3dlch3q3jap06q3ap0j6q3hb12q3f14q3h71r9q3jci1m4q3l3pfcq31pf7i02q31i",
    "02q38i01q32i01q3hei01q32i02q3ci09q3ai0k6q38m22q3iem22q3bm2hbq3k8q28q3l3o7dq3h0h1j9n87q3ahfv6q",
    "39b1q3idb1q3ebaq3hdb3q3i0l32q3h6l31q3el3k9q37l41q32l41q3icl43q31l41q32l41q39l48q3al46q36id1q3",
    "2id1q3i5id1q32id1q36id7q3aidhj6q3h9kf7q3h1je1q3i9je3q3hcjel6q31kbfq3h0p12sf1p11sfhep1dq31p1jp",
    "aham6q3mfha1q35habq3s4haqkcq3m3hcdq3kl6i3vqaq3ik72ihr9q3ij977q3hfld1q3ald4q32ldkfp21q3ap26q3h",
    "e82q368aq3k6n6aq3an61q37n61q3h5n65q3h3n6ir0q3lbl5m5q3kbla4q3j9la7q3h1lak0q31p31m62if1k1bq32if",
    "eq3hnv8p38q3jg0p3ht6k1iaq39p3iiu7q34jd1q37jd1q32jd1q31jdhhfj53jdfq31j5hdq33j52q31jdeq34jd8q3h",
    "ocm6pg4q3mbi25q3di23q39i27q3ai22q38i2hilcq3iej72q3h7j79q3n4h8jcq3v6h8aq3i7h82q3jeh83j7h1h88j7",
    "2h87j7heh84j7jdh8h5q3k6ibnaq3h4h8cq3h4h8cq3l7h89q3h2if7h8o7q3l5h81q3k7h81q32h82q31h82q32h82q3",
    "4h81q3ch81q31h81q37h81q3k1h81q34h82q38h81q37h81q3hch81q34h81q35h81q31h83q37h81q3hl4h82q3hi4h8",
    "2q3j2h8ioco3fq35o31q3fo3kl0q3hfk66q36k6t5q37i81q3h1i82q37i81q32i81q35i85q3jehdi1q31hdn0q3idm7",
    "3q3em72q3am74q32m7hk0q3hfpah1q3jape5q31peht0q3iam1iu6q37i61q34i61q32i61q3fi61q3s5l72q3h0l7i9q",
    "3kc04q3a04q320jh1q3k4h8kcq3jdh8s2q3431q3hb31q3231q3132q3131q3a31q3431q3131q3136q3134q3131q313",
    "1q3131q3331q3231q3132q3131q3131q3131q3131q3131q3231q3132q3431q3731q3431q3431q3131q3a31q3h135q",
    "3331q3531q3h13j4q323hgeq3ich84q3m4h8cq3fh82q3fh81q3fh81q3i5h8aq3qeh8j8q3hah81j52h8dq3ich84q39",
    "h87q32ifeq36h8paq3jt8h84q3h1h83q3dh83q3n7h84q3lfh86q3ch84q31h8fq3ch84q3j8h88q3ah86q3i8h88q3he",
    "h82q32h8keq3hl4h8cq3eh82q3dh83q39h87q3ieh81q37h88q3eh84q39h87q39h87q3p3h81q3j7h8i5q3ah8kg6q3q",
    "mu0ifi0q3hgjaif6q3teif2q3hmo2ifeq3htj1ifshfq3iheiflu2q3hjkbif5q3hgm0ifqtsl1q31h8heq3m0h8o0q3v",
    "0j7ivuh0q3"]

end Variability.Text.Property
