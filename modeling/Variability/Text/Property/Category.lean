import Variability.Text.Property.Table

/-!
General categories. Every character has one of thirty categories, named by two letters or in words;
a category named by one letter takes several of them together. The table follows Unicode 15.
-/

namespace Variability.Text.Property

/-- The categories and their names, in the order of their numbers in the table. -/
def categoryNames : List (List String) :=
  [["Lu", "Uppercase_Letter"], ["Ll", "Lowercase_Letter"], ["Lt", "Titlecase_Letter"],
    ["Lm", "Modifier_Letter"], ["Lo", "Other_Letter"], ["Mn", "Nonspacing_Mark"],
    ["Mc", "Spacing_Mark"], ["Me", "Enclosing_Mark"], ["Nd", "Decimal_Number", "digit"],
    ["Nl", "Letter_Number"], ["No", "Other_Number"], ["Pc", "Connector_Punctuation"],
    ["Pd", "Dash_Punctuation"], ["Ps", "Open_Punctuation"], ["Pe", "Close_Punctuation"],
    ["Pi", "Initial_Punctuation"], ["Pf", "Final_Punctuation"], ["Po", "Other_Punctuation"],
    ["Sm", "Math_Symbol"], ["Sc", "Currency_Symbol"], ["Sk", "Modifier_Symbol"],
    ["So", "Other_Symbol"], ["Zs", "Space_Separator"], ["Zl", "Line_Separator"],
    ["Zp", "Paragraph_Separator"], ["Cc", "Control", "cntrl"], ["Cf", "Format"],
    ["Cs", "Surrogate"], ["Co", "Private_Use"], ["Cn", "Unassigned"]]

def categoryGroups : List (List String × List String) :=
  [(["L", "Letter"], ["Lu", "Ll", "Lt", "Lm", "Lo"]),
    (["LC", "Cased_Letter"], ["Lu", "Ll", "Lt"]),
    (["M", "Mark", "Combining_Mark"], ["Mn", "Mc", "Me"]), (["N", "Number"], ["Nd", "Nl", "No"]),
    (["P", "Punctuation", "punct"], ["Pc", "Pd", "Ps", "Pe", "Pi", "Pf", "Po"]),
    (["S", "Symbol"], ["Sm", "Sc", "Sk", "So"]), (["Z", "Separator"], ["Zs", "Zl", "Zp"]),
    (["C", "Other"], ["Cc", "Cf", "Co", "Cn"])]

def categoryRuns : List String :=
  ["i0h91h63h11h33h11d1e1h11h21h11c2h1a82h13h22h1ha01d1h11e1h41b1h4ha11d1h21e1h2i1h91h61h14h31h51",
    "h11h41h5141f1h21ha1h51h41h51h22a1h4112h11h41a141h03a1h1h701h270h811h2811011101110111011101110",
    "111011101110111011101110111011101110111011101110111011101110111011101110111011101110111021101",
    "110111011101110111011101110211011101110111011101110111011101110111011101110111011101110111011",
    "101110111011101110111011101120111011103120111011201130214011201130312011201110111011201110211",
    "011201130111011202114103144101211101211101211101110111011101110111011101110211011101110111011",
    "101110111011101110211012111011301110111011101110111011101110111011101110111011101110111011101",
    "110111011101110111011101110111011101110111011101110111071201120211011401110111011101110k5114h",
    "b1h234h4c3eh4537h4131h413h1h4n0510111011131h410112hd13311h1104hd2h4101h1301hd101hd2011h101hd9",
    "0i311021303110111011101110111011101110111011101110111011105110111h210112021j30j01101110111011",
    "101110111011101110111011101110111011101110111011101110111h55527101110111011101110111011101110",
    "111011101110111011101110111011101110111011101110111011101110111011101110111011201110111011101",
    "110111011102110111011101110111011101110111011101110111011101110111011101110111011101110111011",
    "101110111011101110111011101110111011101110111011101110111011101110111011101110111011101110111",
    "01110111011101110111hdi602hd136h1i911h11c2hd2h51h31hdid51c151h1251h1251h1158hdhb44hd442h1bhd6",
    "ha3h22h11h32h12h5b51h11ha3h1i0413a4h55a84h12415m341h114751ha1h56523251h54524a8342h514eh11hd1h",
    "a1415he4hb52hdl94b514ehda8i1495231h53h1132hd152h3h64451395133513552hdfh11hdh94352hd1h11hdb45h",
    "dh841h4641hd2ha6hd85i9413h851hai0516j641516151436854615261475a4252h1a81h113f415261hd842hd242h",
    "dh641hd741hd143hd442hd151436452hd262hd2615148hd164hd241hd34252hda8242h36a1h51h3141h1152hd2516",
    "1hd644hd242hdh641hd741hd241hd241hd242hd151hd36254hd252hd353hd157hd441hd147hda82534151h1ahd251",
    "61hd941hd341hdh641hd741hd241hd542hd151436551hd25161hd26152hd14fhd24252hda81h11h37hd14651hd152",
    "61hd842hd242hdh641hd741hd241hd542hd1514161516452hd262hd26157hd25164hd241hd34252hda81h5146aahd",
    "15141hd643hd341hd443hd241hd141hd243hd243hd343hdc44hd2615263hd361hd36152hd146hd16ehda83a6h51h3",
    "1h55hd153615841hd341hdh741hdh042hd151435461hd351hd457hd251hd342hd142hd24252hda87hd1h17a1h5141",
    "5261h1841hd341hdh741hda41hd542hd15141615561hd15261hd26257hd266hd241hd24252hda81hd2416chd25269",
    "41hd341hdi94251436451hd361hd3615141h54hd34167a34252hda89a1h5641hd15261hdh243hdh841hd941hd142h",
    "d743hd154hd36351hd151hd866hda82hd261h1chdj041524754hd1h36413851h1a82h1i5hd241hd141hd541hdh841",
    "hd141hda4152495142hd541hd131hd751hda82hd44i0hd143h5fh11h51h13h5256h5a8aa1h5151h5151h5151d1e1d",
    "1e26841hdi444hde516551h12554b51hdi451hd8h5156h51hd2h55h14h52h1i5hdib4264516651625262514a86h16",
    "426254435143624763445d415262566151416a836152h5i601hd105hd102hdib11h11331hk941hd442hd741hd141h",
    "d442hdi941hd442hdi141hd442hd741hd141hd442hdf41hdj941hd442hdk342hd359h1h4a3hdh04ah56hdl602hd61",
    "2hd1cimc41h51h1h141h6ha41d1e3hdkb43h139847hdh2435169hdh3425162h19hdh2425chdd41hd341hd25chdj44",
    "251675861526b53h1133h11h314152hda86hdaa6hd6h11c4h1351ha15a86hdi3413j547hd5425i2415145hdk64ahd",
    "hf41hd354625364hd261566354hd1h53hd2h1a8he42hd54bhdic44hdha46hda81a3hdi2h5h742526152hd2h1j5416",
    "1516751hd151615268566a52hd15a86hda86hd7h1136h12hde517h05j1hd4516if41516551615561526843hda87h1",
    "ah5959h52h11hd2516he416452625163524a8ic415162536151635268hd4h1i44868526253hd5h1a83hd34a8he463",
    "2h1917hdib02hd308h18hd351h1d5167544156415241625145hdic1jf3d113i21i53k051011101110111011101110",
    "111011101110111011101110111011101110111011101110111011101110111011101110111011101110111011101",
    "110111011101110111011101110111011101110111011101110111011101110111011101110111011101110111011",
    "101110111011101110111011101110111011101110111011101110111011101110111011101110111011101110911",
    "011101110111011101110111011101110111011101110111011101110111011101110111011101110111011101110",
    "111011101110111011101110111011101110111011101110111011101110111011101110111011101110111011101",
    "11011109180612hd602hd81808180612hd602hd811hd101hd101hd101hd108180e12hd818281828182511hd214012",
    "1h4113h4311hd2140123h4412hd21401hd3h481503h42hd311hd2140122h41hdbh65ha6c2h11f1h01d2f1h01d1f8h",
    "11h71h85ha1h69h11f1h04h12b3h11h21d1ebh11h21h11bah11h65ha1hdaha1a132hd6a3h21d1e13aa3h21d1e1hdd",
    "33hdi1h3fhdd5471537c5fhd2h5104h5102h511302130111h5102h51h2506h5101h5101h5101h5401h51140114411",
    "2h521205h210411h51h22h5111h5h0ai391011491a2h54hd5h25h52h24h51h22h51h22h51h27h51h2hfh52h22h51h",
    "21h51h2hfh5hgch28h51d1e1d1eh4h52h27h51d1el1h51h2heh5h9h2i8h56h2k5h5h9hdbh5h5hdjcakeh5h6ar7h51",
    "h29h51h2j6h58h2mfh51h2v8h51d1e1d1e1d1e1d1e1d1e1d1e1d1eheaich55h21d1ehfh21d1e1d1e1d1e1d1e1d1eh",
    "0h2hg0h5o3h21d1e1d1e1d1e1d1e1d1e1d1e1d1e1d1e1d1e1d1e1d1ejfh21d1e1d1ei0h21d1ehg2h2j0h5h5h22h56",
    "h2i7h52hdi0h51hdm9h5j00j011011302110111011101140111021106123301110111011101110111011101110111",
    "011101110111011101110111011101110111011101110111011101110111011101110111011101110111011101110",
    "111011101110111011101110111011101110111011101110111011101110111011101110216h5101110113510115h",
    "d4h11a2h1i611hd115hd112hdj847hd131h1ehd15h749hd741hd741hd741hd741hd741hd741hd741hd741hdi052h1",
    "1f1h01f1h03h11f1h01h11f1h09h11c2h11c1h11f1h02h11f1h01d1e1d1e1d1e1d1e5h113ah12c4h11c1h11ddh12h",
    "53h11d1e1d1e1d1e1d1e1ci2hdhah51hdl9h5chdt6h5hahdch54hd1h63h11h51314191d1e1d1e1d1e1d1e1d1e2h51",
    "d1e1d1e1d1e1d1e1c1d2e1h59945261c532h53913141h12h51hdl642hd252h423141cla41h133145hdib41hdle41h",
    "d2h54aah5i04i4h5chdh04hfh51hdaaheh58a1h5fai0h5aai7h5fahk0h5hps04k0h5lih5413kn743hdj7h59hdi846",
    "32h1hgc4133h1h04a824h4hd101110111011101110111011101110111011101110111011101110111011101110111",
    "011101110111011101110111415371h1a51h113101110111011101110111011101110111011101110111011101110",
    "112325k64a9256h18hdh7h4932h410111011101110111011101110311011101110111011101110111011101110111",
    "011101110111011101110111011101110111011101110111011101110111011101110111011101110111011138110",
    "11101120111011101110111011132h410111011141011103110111011101110111011101110111011101110115011",
    "50111011101110111011101110111011401110115hd10111hd111hd1110111011h8hd331011142311741534154415",
    "h742625164h5153hd6a2h51h31h56hdj444h18hd26j24h06258hd2h1a86hdh25643h1141h12415a8hc4852h1h74b5",
    "26bhd1h1hd43hd3516if4152645262536dh11hd13a84hd2h154151394a8541hdi9465262526259hd34158415162hd",
    "a82hd4h1h0413643h514161516j2415143524255425141514h8hd24132h1b41625262h114231615ahd642hd642hd6",
    "49hd741hd741hdib11h44391132h44hdl01i3426152615261h116152hda86hdirq44chdh744hdj144hdog0hbhpg0h",
    "chme42hdma4i6hd71chd515hd1415a41h2d41hd541hd141hd241hd241hdmc4h1h4h0hdhmb41e1dh0h5k042hdj647h",
    "d1h5i0hdc41h33h5h057h11d1e1h16hdh051h12c2b1d1e1d1e1d1e1d1e1d1e1d1e1d1e1d1e2h11d1e4h13b3h11hd4",
    "h11c1d1e1d1e1d1e3h11h21c3h21hd1h11h32h14hd541hdo742hd1ha1hd3h11h33h11d1e1h11h21h11c2h1a82h13h",
    "22h1ha01d1h11e1h41b1h4ha11d1h21e1h21d1e1h11d1e2h1a413id423hf43hd642hd642hd642hd343hd2h31h21h4",
    "1h52h31hd1h54h22h5ahd3ha2h52hdc41hdha41hdh341hd241hdf42hde4i2hdnb45hd3h14hdida3hd9h5j594ah1h5",
    "2a3h51hddh53hd1h5ifhdidh515o2hdhd43hdj14fhd15hba4hdi044a9hdh441984195hdi64555hdhe41hd1h1i444h",
    "d841h159iahdi80i81ke42hda86hdi404hdi414hdi848hdj44bhd1h1b01hdf01hd701hd201hdb11hdf11hd711hd21",
    "k3hdhj749hdh64ahd84h8hd631hdia31hd93k5hd642hd141hdic41hd243hd142hdh741hd1h18ah742h57ahf48hd9a",
    "j0hdh341hd245hd5ah646a3hd1h1ha45hd1h1k0hdj844hd2a24h0a2hdiea14351hd255hd45441hd341hdhd42hd354",
    "hd159a7hd9h17hdhd42a1h1hd43ai0hd841h5hc4254hd5a7h19hdj643hd7h1h642hd8ah345hd8ah247hd4h1chd7al",
    "0hdk94j7hdj30dhdj317hd6ai44458hda8hi6hdhfa1hdia41hd251c2hd24kbhd35hd4aa148hdh64b54a5h1h6hdh24",
    "454h1i6hdh547ah4hdh749hd161516j54f57h14hdh4aa8152425149hd3516id4364526252h11ha4h115ahd1ha2hdh",
    "947hda86hd35i445516851hda84h11426148hdi34152h1149hd2516j04369526444h1451h11615a8141h1143h11hd",
    "h4abhdh241hdh943635261516256h1152415jehd741hd141hd441hdf41hda41h16hdif41536855hda86hd25261hd8",
    "42hd242hdh641hd741hd241hd541hd25142615462hd262hd362hd146hd165hd54262hd753hd55obhdj54368526351",
    "615445h1a82h11hd1h11534hehdj043665161546251625241h1148hda8q6hdif436452hd46251625h7h14425i2hdj",
    "043685261516253h114bhda86hddh1h3hdib415161526651615141h16hda8j6hdhb42hd35264516554hda82a3h11h",
    "574r9hdic4369516251h1m4hdi00i01a89achd842hd142hd841hd241hdh84661hd262hd25161514161416153h19hd",
    "a8k6hd842hdi7436452hd254615141h11416hbhd14a5i84651614458h1158hd14652635ie4d516253h1145h1dhdk9",
    "47hdah1v6hd941hdi5416751hd651615145h1ahda8h3a3hd2h1he42hdh651hd167516251625k9hd741hd241hdi646",
    "53hd151hd251hd7514158hda86hd641hd241hdi04561hd251hd26151615147hda8hj6hdh3425262h17hd251416d41",
    "hdi2426553hd26151615dh1a8l6hd14fhdh5a8h54h3h1h5dhd1h1jpa4m6hdmf91hd5h1bhds44qkchdm142h1dhdkj0",
    "4h0ha1564f5vqahdik74ihr9hdij947hdhf41hda84hd2h1kf41hda86hdhe42hd551h1ahdj04755h14h5431h11h5ah",
    "da81hd7a1hdh545hdh34ir0hdi00i01h7a4h1m5hdkb44hd1514j767hd45d3k0hd231h11315bhd26ehdhnv848hdkt6",
    "4iahd94iiu7hd431hd731hd231hdhi34fhd14hdhd342hd14ehd448hdhoc4pg4hdmb45hdd43hd947hda42hd1h5251h",
    "14hahilchdie52hdh759hdn4h5jchdv6h5ahdi7h52hdjch526353h5668ha852h575heh545jdh5h5hdk2h5351h5nah",
    "dh4achdh4achdl7h59hdh9ao7hdha0ha1ha0711hdh21ha0ha1101hd202hd102hd202hd401hd80411hd111hd711hdb",
    "1ha0ha1201hd402hd801hd701hdha1201hd401hd501hd103hd701hdha1ha0ha1ha0ha1ha0ha1ha0ha1ha0ha1ha0hc",
    "12hdh901h2h911h261h901h2h911h261h901h2h911h261h901h2h911h261h901h2h911h26110112hdj28ig0h5j754",
    "h5j258h515eh5152h55h1fhd551hdf5kl0hda114h416hd61t5hd751hdh152hd751hd251hd555hdje3i1hd15n0hdid",
    "43hd75732hda84hd141h5hk0hdhe415h1hdic445a85hd1h3ht0hdhb41345a8iu6hd741hd441hd241hdf41hds542hd",
    "9a75i9hdi20i2175134hda84hd2h1jh1hdjba1h53a1h34akchdida1h5fas2hd441hdhb41hd241hd142hd141hda41h",
    "d441hd141hd146hd144hd141hd141hd141hd341hd241hd142hd141hd141hd141hd141hd141hd241hd142hd441hd74",
    "1hd441hd441hd141hda41hdh145hd341hd541hdh14j4hd2h2hgehdich54hdm4h5chdfh52hdfh51hdfh51hdi5h5ahd",
    "daq1h5j8hdhdh5dhdich54hd9h57hd2h5ehd6h5pahdvbh55h4it8h54hdh1h53hddh53hdn7h54hdlfh56hdch54hd1h",
    "5fhdch54hdj8h58hdah56hdi8h58hdheh52hd2h5kehdhl4h5chdeh52hddh53hd9h57hdieh51hd7h58hdeh54hd9h57",
    "hd9h57hdp3h51hdj7h5i5hda8kg6hdqmu04i0hdhgja46hdte42hdhmo24ehdhtj14shfhdihe4lu2hdhjkb45hdhgm04",
    "qtsl1hd1hahehdm0hao0hdv05vuh0hdvvvehc2hdvvvehc2hd"]

end Variability.Text.Property
