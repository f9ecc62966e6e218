import Variability.Text.Property.Table

/-!
Ages of characters: the version of Unicode, up to 15, that a character came with.
-/

namespace Variability.Text.Property

def ageNames : List (List String) :=
  [["V1_1", "1.1"], ["V2_0", "2.0"], ["V2_1", "2.1"], ["V3_0", "3.0"], ["V3_1", "3.1"],
    ["V3_2", "3.2"], ["V4_0", "4.0"], ["V4_1", "4.1"], ["V5_0", "5.0"], ["V5_1", "5.1"],
    ["V5_2", "5.2"], ["V6_0", "6.0"], ["V6_1", "6.1"], ["V6_2", "6.2"], ["V6_3", "6.3"],
    ["V7_0", "7.0"], ["V8_0", "8.0"], ["V9_0", "9.0"], ["V10_0", "10.0"], ["V11_0", "11.0"],
    ["V12_0", "12.0"], ["V12_1", "12.1"], ["V13_0", "13.0"], ["V14_0", "14.0"], ["V15_0", "15.0"]]

/-- The ages of all characters in order; the number behind the last is for those that are not
assigned. -/
def ageRuns : List String :=
  ["hv6043he0831516h2336b7e8l905326if013a053h16k6093158657362013d54920292h91038101f4h9701h9101h9h",
    "401h9ic0197013251013101310131013h202415564713c013k2013c013i9019232543j50252025202518hc0238027",
    "2068h0548h092a2b8f1h9i602h9701h3i701h310132h92f1c1h9h1117d1a0189011378h9hb04h91h350bh9461c1f5",
    "917109659101e1h717101bha059h303336671be025k80235013f013he026a05316e31h9he336hb32h936he7h29j13",
    "15eh9jb82h93h3iea2h9fa1h9hcb2h91b1h9bh25h9hfh71h92h76h98h71c1fbc6f2h01h78h1ah6bh71h3fh11h0hbc",
    "1f1a3016j502bh201a1b501a2bh90295b1f2a2817281f301h9802h9202h9h601h9701h9103h9402h91016702h9202",
    "h930178h9104h9201h9502h9h501a2h21h32h91610161h9604h9202h9h601h9701h9201h9201h9202h9101h9504h9",
    "202h9303h9197h9401h9107h9f0191h3ah9301h97016101h9301h9h601h9701h9201h9502h9a01h9301h9302h910f",
    "h910362h9a01c167h91h06h21h9301h9802h9202h9h601h9701h9201h916402h980192h9202h9307h91h6204h9201",
    "h930292h9b0166bah9201h9603h9301h9403h9201h9101h9203h9203h9303h98017304h9503h9301h9402h9196h91",
    "0eh917c0865h91f301h3801h9301h9h701h9a01f502h91h719701h9301h9407h9201h9291h02h91h72h920292h9a0",
    "7h91h4891h11f201h3801h9301h9h701h9a01h9502h926701h9301h9407h9206h91h7101h920282h9a01h9281h8ch",
    "91h21f201h6801h9301h9h701bh001b2h21960191h9301h9401b1h14h93h1107h11h020292h9a0693h1791h91h623",
    "1h9h233h9h831h9931h9132h9733h9134h9631h9131h9836h9af2h933ch9ja04h9hd0i5h9201h9101h91h4201h410",
    "1h91h4106h4401h4701h4301h9101h9102h4201h4d01h4302h9501h9101h9601h81h9a02h9202ci0h9k811h9i1113",
    "294h9hb14b6113111h9h5133711311331h9f31h9191327394a2bi5h9i23195319231973394369ha3k094a29i601h9",
    "1c5h91c2h9i70252710173cla05ak405al206a7317jf317131h9432h9731h9131h9432h9i7317131h9432h9hf3171",
    "31h9432h9731h9131h9432h97317731h9h7317hf317131h9432h97317i7317h332h92b27hc33h9ha76h9l531h02h9",
    "6h02h91ain639ahd33h9l138f7h9d51h7751h79h91h7h759h9h45ch9d51h9351h925ch9ld3162h9a36h9a66h9f31h",
    "7a36h9l831h37h9ia3195h9k6aah9hd62f1h9c64h9c64h9163h9ia62h956bh9ia72a4h9ha76h9a71a3h927i06hc72",
    "h927jfa1h9hda2h9ba6h9aa6h9ea2h9ff2h6eh7j1h9kc81h73h9id82h71h9ib93cc96cj4b8h94bj893h9f93h9j399",
    "h17h9ibh32h93h38c8h9i3a4c1h22f1h45h9mc6l8778hc9ff4h21h71h11b1a28pb01149la069h602h9602h9i602h9",
    "602h9801h9101h9101h9101h9hf02h9j501h9f01h9e02h9601h9h302h9301h9901h9if013h7015635526271577551",
    "91h94e70152h9hb01h9578b3h9b011123325473a1b1d3f1h01h21h7fh9h202375174819fh9j90231617f51728193a",
    "j001318491a2h04h9lb093c5v20e51013n901315he3j4526b7c81abb7f4h11h2i5023h9h9b0h5h9ob0h4516p60a5l",
    "008385h4026251713l6023c527a586b7192a26h0718a93a49aa1bh3a1b1a4bh8a1f401b402bhc01bi301b101b403b",
    "101a702b70e5hf03bh801be01b77481c191c2bhc549h05hg03ig05e667785948i993f595ahaf2h9i0f1h91h6i2f3h",
    "3cf1h48f1h2h9h34h0fh31h4if71h7if71h7d8391a3948692amb77a2c5h9id71h91c5h91c2h9j672c7h9171beh91b",
    "h779h9771h9771h9771h9771h9771h9771h9771h9771h9i09h874927h391aac7f2h15h25h31h43h6bh7i2h9ha31h9",
    "l93ch9t63hah9c34h9j80333513101h9l40252h96025le0155h9i80191h21h31h9le01h9h00h833b5h6h07h49ch9h",
    "05hd0261h9i40ca16f5hc02617j20f5c046if01h5n7046m3026hf016hpr63ah6k06lhq60h67898a1c9h0h5h25h3dh",
    "63h7kod33h9h2325h0315c3153315139h9j0ahic9h4h9i092bh298chc96f1h01cl8a8h9h77485928mb92b1h02b2cc",
    "fab1c3f1h11h32f6h02h36h42h75h44h65h92h71h91h71h95h7h8h93h72h61f2c1b59ic71h63h9aa6h9j888h9k591",
    "h18h9c96h9hca2h02h3l49bh919hda3h9kea1h9ba4h92ahff1h9j799h9e92h9a92h949hca4fk3ah8h95ah7cah96b2",
    "h96b2h96b9h97b1h97b1h9j0f4h02f2h44h64h9l0h0iea2h9aa6h9irq41ch9h7a4h9j1a4h9og01hqie02cjb53a2h9",
    "ma7i6h970ch9505h913h901h9501h9101h9201h9201h9mc0h0b1h7h0h9hmd0h0h7k002h9j607h91h7i04c015162h7",
    "h05a76h940397f2h0h502526a01h9h301h9404h93015101h9o702h9101h9le025le03h9602h9602h9602h9303h970",
    "1h970ah9331230c61h9ha61h9h361h9261h9f62h9e6i2h9nb65h9364h9id63h996kb72f2h11h9c91h63h91fifh9ie",
    "9o2h9hd93h9j19fh9hcf4h9hf41f449h93h2hb45h9ibf5h9he61h916i474h9e7iah9i6426i64l062h9a66h9i4h14h",
    "9i4h14h9i8f8h9j4fbh91fbh71h9fh71h97h71h92h71h9bh71h9fh71h97h71h92h7k3h9hj7f9h9h6fah98fh8h96h7",
    "1h9iah71h99h7k5h9662h9161h9ic61h9263h9162h916h6a1h99ajff8h99fj0h9h3h01h92h05h95h0ha82a3h918ha",
    "95h919k0h9j8c4h92h02ch0h02h9ieh0471h9275h9871h9371h9hb72h32h9374h9971h37h9977h9i0ai0fi0h9i7f4",
    "h9cf9h9j6a3h9hda2h9hba5h98ah2f7h94fch97fl0h9k9aj7h9j3h0dh9j3h07h96h0i8h38h9ah3hi6h9hfa1h9iah6",
    "1h93h62h92h6kbh93h8i8h38h9iah3h6h9hah7i6h9hch6h4h9h7h49h9keb4h9heb6h79h91fk2a1h7ah91h32h9h9c7",
    "h9ac6h9j5c1h9ec3h31h68h9i7f9h9k9c4h01f2h6ac1f5h01h9h4fbh9h2f1h9ibf1h13h8jeh97h01h91h01h94h01h",
    "9fh01h9bh06h9jbf5h9af6h91h03f1h98f2h92f2h9h6f1h97f1h92f1h95f1h91h39f2h92f2h93f2h91h06h91f5h97",
    "f2h97f3h95fobh9lah11h61h11h91h11h31h42h6heh9k8f8h9afq6h9j6f2h9h2fh4h0i2h9k5fbh9af6h9dh1h3h9j8",
    "c1h41h76h9acj6h9hah01h32h9fh04h9h0h07h7r9h9jch3m4h9l3fch91f7h62h91h62h98h61h92h61h9heh61h92h6",
    "2h9ch69h9ah6k6h98h42h9ieh42h9bh4hbh9k8h28h9j4h22h4h7h21h35h2dh9h0h7j9f7h9ah8v6h99h11h9idh11h9",
    "eh1ah9hdh13h9i0h12h9h6h11h9eh1k9h97h21h92h21h9ich23h91h21h92h21h99h28h9ah26h96h31h92h31h9i5h3",
    "1h92h31h96h37h9ah3hj6h9h9h37h9h1h81h9i9h83h9hch8l6h91h6fh9j2h4dh91h4jmf8iaf1h0m6h9m38cf1h9481",
    "fbh9s4h0qkch9m3h7dh9kifa1h89h4hdh8vqah9ik7h0ihr9h9ij9b7h9hff1h9af4h92fkfh71h9ah76h9hef2h96fah",
    "9k6fah9af1h97f1h9h5f5h9h3fir0h9lbh3m5h9k5c6h44h91h4ifc9h47h9h1ck0h91h11h22h41h6bh92h6eh9hnudh",
    "15h36h48h9iv3h1hu3h6iah99h6iiu7h94h71h97h71h92h71h92bhhdh24h7fh91h8hdh93h42h91h8eh94h48h9hoch",
    "2pg4h9mbf5h9df3h99f7h9af2h98fhilch9ieh72h9h7h79h9n4h7jch9v64ah9i742h919r44bh02h7h5h9k67nah9h4",
    "h8ch9h4h3ch9l769h9h287h3o7h9l541h9k741h9242h9142h9242h9441h9c41h9141h94416241h9k141h9442h9841",
    "h9741h9hc41h9441h9541h9143h9741h9hl24272h9hi24282h9j24ioch0fh95h01h9fh0kl0h9hfh76h96h8t5h97h1",
    "1h9h1h12h97h11h92h11h95h15h9jeh8i1h91h8n0h9idh43h9eh42h9ah44h92h4hk0h9hfh7h1h9jah45h91h4ht0h9",
    "iah8iu6h97h71h94h71h92h71h9fh71h9s5f2h9h0fi9h9kbh11h44h9ah14h92h1jh1h9k4h3kch9jdh4s2h94c1h9hb",
    "c1h92c1h91c2h91c1h9ac1h94c1h91c1h91c6h91c4h91c1h91c1h91c1h93c1h92c1h91c2h91c1h91c1h91c1h91c1h",
    "91c1h92c1h91c2h94c1h97c1h94c1h94c1h91c1h9ac1h9h1c5h93c1h95c1h9h1cj4h92chgeh9ic94h9m49ch9fb2h9",
    "eb1f1h9fb1h9fbh6fah9ba2f3h6hfa1h31b1abb1a1b1a2b1a3b1a3b5a8b1a7b1aab2c1h43h69b1a1b2a2b1aab4a2b",
    "1aabh2h11h6j8h9hab1a2bdh9i2a9b1h14h99a7h92beh96h2pah9i1bcf3h06b1fk6b1f2h0h4bcfi5b1f5b4f5h0cfh",
    "1b7f8h0jfb1f1b1fr6b1f4b2f1h0jeb2f4c7f5h0h8bh2f1h1i9f1h1l6f5b1ch0b1c3b1c1b1c1b1c1b1c3b1c6b2c4b",
    "1c1b2c4b1ccb2f2h0bbj0fk6baf1h02h12h21h42h64h91h83h7df3h94f3h12h21h31h42h63h9n4b3h84h95h8l5f4h",
    "31h86h9ch44h91h7fh9cf4h9j8f8h9af6h9i8f8h9hef2h92h6keh9ch21h63h49h06h11h28h18h21h12h2ch11h4ch1",
    "1h23h3fh1dh25h31h41h64h32h61h71h31h44h35h0dh16h2bh32h66h43h62h4ah36h41h02h38h41h61h73h4h7h2h9",
    "h3l4h4ch9eh32h94h41h63h83h42h73h93h44h62h87h96h4h3h64h73h87h64h73h81h91h83h63h78h92h87h63h72h",
    "84h98h71h87h97h72h87h9p3h61h9j7h6i5h9ah6kg4h921qmt747h62h7i0h9hgj5a4h71h86h9teb2h9hmo2h0eh9ht",
    "j1h2shfh9ihe4lu0h921hjkbh65h9hgm0h8tskeh921vvveh921vvveh921vvveh921vvveh921vvveh921vvveh921vv",
    "veh921vvveh921vvveh921vvveh9211h914heh9m04o0h9v06vugeh9iggg21"]

end Variability.Text.Property
