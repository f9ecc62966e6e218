import Variability.Text.Property.Table

/-!
Properties that a character has or has not. The tables follow Unicode 15.
-/

namespace Variability.Text.Property

def asciiHexDigitChanges : List String :=
  ["j0a76ha6"]

def alphabeticChanges : List String :=
  ["k1ha6haif1a1415h71hf1hsa4ce57111l61ia51224116113111h41l31ob8q61i6216i9i7e111212118hb44hdb5j81",
    "7em6184843a321h0j0dm5h8i192415h82h3h3h97b5h816h1iaac376kc1h0134fdh318222h61711343822221181421",
    "5c2a14316422h617121212454222417411h16b319131h617121539131231f4h544318222h6171215382222924215d",
    "1h0216331432111232333c4533133161i8d131h71h038131382132124hc418131h71a15381313826214d3cd131i92",
    "81313115475h66131h23h8191127861118h22dja5761j3211151h8111h313251161e4i01jf81i44h34h01i4k3j711",
    "25h0k0a42i611512ib1hkd142711142i9142i1142711142f1j9142k3i5h0h0l6263imc2h11ha5kb3b7h4bh5ch4cd1",
    "312cj42h3e141k3l97ib5k6ahf1c49h7he25bic4haj6hc4jf2h4j21h72b3j1j41f18j3ia24aic1bej7h63ai4297ib",
    "23i941612315s0i7ebhh6262i626281111111hf2j51711331734264d5317n41d1h0dm51412a1135611111141b2455",
    "41h1i9jidj4nh6u56432ci611512j871h0h797171717171717171i0if1ht53h9975254l6631la145ib1leh1i0j0h0",
    "ig0hps0k0lmodk3ie2hgd3h0a2h4if583n1i792m72k0521115h8h41i1h8j4ck411ic63113ai15i3dhd3j31cf1h0h0",
    "a51j79eh2h73k51111h832h024b6262697171ib1e6nbh5irq4ch74j1ihg4hme2mai67c55c1d151112121mci1hmbh2",
    "k02j6i8cn451o7i4ha6habl936262623i3c1ha1h3121f2ei2nbk5j5hgbhd3j1ifi0dhe5ib5he2i44815iapeh2i44i",
    "44i88j4cb1f17121b1f1712k3hj79h6a8h861ia19k56211ic12312h7ah79hfk1h312ah6ahak6j862k041258131hdi",
    "ahd3hdi381hchbj6ah6ah3dh2mek9j7j3dj3di8hl8ia1232kehda18h6iah2ieh5hbh79k6ib5aj991dh9h7j3h148i3",
    "319k01492a111i3h21i22164je711141f1a7j9h7418222h6171215382222316157pck21314h43hek22211r8j627h9",
    "6i2jf1131jbj621k7hb2eh57r9j9m7k0hf82128121he122224ld82ie261112hbj32ah1k851h2k9hg791id1711j1he",
    "2h61ek97121ic3112131122h86121i5121411hk7h79h11i933mf1kfjpam6mfh1s4qkcm1fkj0h16vr9ik7ihr9ij97h",
    "fh1kfh1heh2j0h04hfh55h3ir0k0o0kb4j97h1k0211c2ehnv88kt6ia9iiu7417121hi3f1hd321e48hocpg4mb5d397",
    "a41hnm1l51k7122122241c11171k11428171hc141511371hl42h91h91hf1h91hf1h91hf1h91hf1h918nj4hf66t571",
    "h12712155jei11n0ida7h01hk1heh2ichu4hciv4714121f1s5jbk43131kr441hb1211211a14111161411111131211",
    "2111111111121124171414111a1h153151h1in4ha6ha6haun6qmu0i0hgja6te2hmo2ehtj1shfihelu2hjkb5hgm0"]

def bidiControlChanges : List String :=
  ["mhc1hpv12ha5j74"]

def bidiMirroredChanges : List String :=
  ["i82h2111hc111hd111id1f1une4nld2ppc2a2j62e2r11s043631323414111149511h2549211182hf2451922h35295",
    "224h82h084h4272kjdeka124121354533ehp3h6261e817631451225411322a622ch314211121145263h82b2441222",
    "4ib281i851113553413511hg01ig343212e22aib8hqba28sujd652q22h2111hc111hd1111212tnn71j91j91j91j91"]

def caseIgnorableChanges : List String :=
  ["i7161b1i3111k7141114122hv7s042419211vb7sf151j1id11121211ic1b6ab11i31ah5h01m581a14i1111hehblbb",
    "jab4121h8h8ib3ic17268i9jaj7111484137a2d1f1ja14481h42ha122j9142422331he231b2j91451241h42h6611j",
    "a121148172b2he1jd1c1j2131j7113531472b2hd1ja1216152h42hc2j924481h42hd1k817311la127b9m21299117k",
    "92hb11111j7e15125b1i491m64161222h9243h04d12261f1le1im03jr23hd2he2he2k0217812b3151id5j31k12i21",
    "n63429163tb221ja1171111286a21i718hfj14j01151151i89c2i042213j81123113ja822k06l231d17416132j2jf",
    "d1i2m5hrd113b3d3d3d2c582a12125j151a11d1h0dj3i1rob2n13nd1f1m0i0if1ht51i443551ld6ld3mvh61ku26hg",
    "e1m241a11hc4l02ei2ke1h73m7332813141h9251p72hah2d1i68h9bie3j012422h11h52k262222c181i31b1j31132",
    "25211hb1e25211m4593n912141kvj01p3h1ijdh031ch0i2121q917161b1i3111if1id2k31h53ig11u21p55kg561ia",
    "19ik631254i8341q52ijd4ho32l03k6bj14nb1j6fi9122a3j14222141a1j23i4518je1c2j49a421lf321126121pd1",
    "38h52j9231i5735s382311h71l46114212ue46212hb2l582112ma1112611m532415hg3912hg021141p042241i0ai8",
    "624819623ied12hp671611l2h6271212na631121711k823111hlb2b2j455111hkudh16fjmpa5jb794kgb1jfh1k021",
    "2kggb41712spe214hilcie2h7ii039h027he4p43nrbj74j281e1h651fll071h12712155jei11q0ehn01jd4hvb5ju0",
    "7md8qqf5sgsg11hem0o0v0"]

def casedChanges : List String :=
  ["k1ha6haif1a1415h71hf1s3144t01i472he5m01ia42224116113111h41l31ob8q61i69i9rh7i611512ib14iq0l626",
    "oo297ib23k0s0k0hh6262i626281111111hf2j51711331734264d5317n41d1h0dm51412a113561111114164124554",
    "1h1i032jj1j4nh6u56432ci61151nph2ieh2heo4m6341jb521115h8513jj5ib1e6l0kvk07c5kg9ha6hakq5l0m0i44",
    "i4n4b1f17121b1f1712hs31231ia19ks5j3dj3rqdk0llm0k0mlo0l51k7122122241c11171k11428171hc141511371",
    "hl42h91h91hf1h91hf1h91hf1h91hf1h918nj4a1h466hg5jeop2k4nucha6ha6ha"]

def changesWhenCasefoldedChanges : List String :=
  ["k1hala1ah718i01111111111111111111111111111111111111111111111111111111211111111111111112111111",
    "111111111111111111111111111111111111111211111112111213241213321211111211211213111231721212111",
    "111111111111121111111111111111122111311111111111111111111111111111111111111111111111111111111",
    "117212211411111111v61ia1113181611311121h119h61c332111111111111111111111111122211122j3j0111111",
    "111111111111111111111111111911111111111111111111111111111111111111111111111111111121111111111",
    "112111111111111111111111111111111111111111111111111111111111111111111111111111111111111111111",
    "111112i6j01rh8i61151jia6oo297ib23hk0111111111111111111111111111111111111111111111111111111111",
    "111111111111111111111111111111111111111111111111111111111111111111111111111111111111111111115",
    "221111111111111111111111111111111111111111111111111111111111111111111111111111111111111111111",
    "1111119886a88886b111111188h0j023265326b4c55326hi913261idh0h31jj2hanj0j0j011321111114112183111",
    "111111111111111111111111111111111111111111111111111111111111111111111111111111111111111111111",
    "11811141npkd111111111111111111111111111111111111111111111h3111111111111111111111111111o711111",
    "1111111131111111111111111111111111111111111111111111111111111111111111a1111211111111411121113",
    "11111111111111111111515111111111111111411615111hc1jnal0kvk07c5kg9haks5i8o8i4pcb1f1712muaj3rud",
    "i0llo0i0nqq0i2"]

def changesWhenCasemappedChanges : List String :=
  ["k1ha6haja1ah71hf1k01l41d1e2e22114ld1h26hb121112321112152112217121123651a2q61ia42233116113111h",
    "41if3i1151o58q61i6ai7rh8i611512ib23iq0l626oo297ib23r9131h01n1pc211n6262i626281111111hf2j51711",
    "331734264d5317hi913261hb1h1i032jj1j4nh6n112127m67432ci61151nph2ieh2hco6e2je9f33251h91hb5244hb",
    "2jlc1hcl0kvk07c5kg9ha6hakq5l0m0i44i4n4b1f17121b1f1712ms3j3dj3rqdk0llm0k0nqo0k4"]

def changesWhenLowercasedChanges : List String :=
  ["k1ham5h717i1111111111111111111111111111111111111111111111111111111121111111111111112111111111",
    "111111111111111111111111111111111111121111321112132412133212111112112112131112317212121111111",
    "111111111211111111111111111221113111111111111111111111111111111111111111111111111111111111172",
    "12211411111111hi11113181611311121h119i318111111111111111111111115121122j3j0111111111111111111",
    "111111111111111911111111111111111111111111111111111111111111111111111121111111111112111111111",
    "111111111111111111111111111111111111111111111111111111111111111111111111111111111111112i6rk9i",
    "61151it2l6opaib23hk01111111111111111111111111111111111111111111111111111111111111111111111111",
    "111111111111111111111111111111111111111111111111111111111111111111111111111191111111111111111",
    "1111111111111111111111111111111111111111111111111111111111111111111111111111111119886a88886b1",
    "11111188h88888885b5b4c5b5hi913261idh0h31jj2hanj0j0j011321111114112183111111111111111111111111",
    "11111111111111111111111111111111111111111111111111111111111111111111111111811141npkd111111111",
    "111111111111111111111111111111111111h3111111111111111111111111111o711111111111113111111111111",
    "1111111111111111111111111111111111111111111111111a1111211111111411121113111111111111111111115",
    "15111111111111111411615111hc1lnibhaks5i8o8i4pcb1f1712muaj3rudi0llo0i0nqq0i2"]

def changesWhenTitlecasedChanges : List String :=
  ["m1haja1i9h81811111111111111111111111111111111111111111111111111111111211111111111111211111111",
    "111111111111111111111111111111111111112111132111213151213231211111214121311121311141121211111",
    "111111111111211111111111111111311113111111111111111111111111111111111111111311111111111111111",
    "8122114111111116121112321112152112217121123651a2q61ib1113133h21hbi312331111111111111111111111",
    "15112121j4j0111111111111111111111111111111111191111111111111111111111111111111111111111111111",
    "111111121111111111112111111111111111111111111111111111111111111111111111111111111111111111111",
    "111111111111111111111111j1i7un06oo29v0131h01n211111111111111111111111111111111111111111111111",
    "111111111111111111111111111111111111111111111111111111111111111111111111111111111111111111111",
    "111111117511111111111111111111111111111111111111111111111111111111111111111111111111111111111",
    "11111111111986a88886a8888e2888888512613312842288a312hl61i1h041jkbhank6j011321111116121a111111",
    "111111111111111111111111111111111111111111111111111111111111111111111111111111111111111111111",
    "811141ci61151nph3111111111111111111111111111111111111111111111h3111111111111111111111111111o7",
    "111111111111131111111111111111111111111111111111111111111111111111111111111a11121111111114141",
    "1221111111111111111111b1111111111111114111615111hc1jlc1hcl0kvk07c5ki9haksdi8o8i4pbb1f1712ng3j",
    "3rsdi0llo0i0nqq2i2"]

def changesWhenUppercasedChanges : List String :=
  ["m1haja1i9h81811111111111111111111111111111111111111111111111111111111211111111111111211111111",
    "111111111111111111111111111111111111112111132111213151213231211111214121311121311152121211111",
    "111111111121111111111111111121211311111111111111111111111111111111111111131111111111111111181",
    "22114111111116121112321112152112217121123651a2q61ib1113133h21hbi31233111111111111111111111115",
    "112121j4j011111111111111111111111111111111119111111111111111111111111111111111111111111111111",
    "111112111111111111211111111111111111111111111111111111111111111111111111111111111111111111111",
    "1111111111111111111111j1i7rk8ib23iv86oo29v0131h01n2111111111111111111111111111111111111111111",
    "111111111111111111111111111111111111111111111111111111111111111111111111111111111111111111111",
    "111111111111175111111111111111111111111111111111111111111111111111111111111111111111111111111",
    "1111111111111111986a88886a8888e2j5124111331241342288a31241hl11i1h041jkbhank6j011321111116121a",
    "111111111111111111111111111111111111111111111111111111111111111111111111111111111111111111111",
    "111111811141ci61151nph3111111111111111111111111111111111111111111111h311111111111111111111111",
    "1111o7111111111111131111111111111111111111111111111111111111111111111111111111111a11121111111",
    "1141411221111111111111111111b1111111111111114111615111hc1jlc1hcl0kvk07c5ki9haksdi8o8i4pbb1f17",
    "12ng3j3rsdi0llo0i0nqq2i2"]

def dashChanges : List String :=
  ["id1llc1j31uk11kg51og96jd1i71f1ho61sg4121hf241hc1hre1h31mf1stp02i51a1q91vpf1"]

/-- Where the property Default_Ignorable_Code_Point begins and ends. -/
def defaultIgnorableCodePointChanges : List String :=
  ["qd1iq11isc1rk22ml32l55nvb5ha5j1h0hgv41sspbh0uf1q01kf9rsq74hksf8siuo5hgg0"]

def deprecatedChanges : List String :=
  ["hk91li91pg3111oi92os56ir92ttst61"]

def diacriticChanges : List String :=
  ["le111k71614122hv7pf1856h124192vd5t11j7h11hb111211o6842o624233k3hblbbjabi22ne8i9ah0hcjd1h0134h",
    "c1ka1h01me1h01me1h01if3jc1h0171n71me1h01me1h01md2h01nc1nc611mb1d5kb2hb1111142k2312je1n0112i82",
    "45h9711a2is13jr42r3b91hlb3hj9821j0f2bm81f1i69j62oa2k06l2h9416123j2jfl9ci5bhrd113b3d3d3d2sv03h",
    "jd1hva6m94lf1nln21c211hc2l22ei2m63md2sa1hbh2j94i41lf1c1i41p53k14j31m4593o02kvj01jg1h0hge111if",
    "1id2k31ivc1kpf61ia19jia2ijb6ht53k6bj14s01i91k82n82je1kc193m82r22l11h01h8735sd131nb2vb2ne1n62n",
    "31hgd2hg2241pc1l31h21l11hq51hg2112l11hmqffjmpa5jb7kl8h1l02jvve41712hvg1ie2h7ii03368827he4uo2j",
    "es27hn71jd4lu07md313"]

def emojiChanges : List String :=
  ["i31615amf141hvod1c1t81h61la6f2hmf2c1q61h9b43s71u72a191ja415912122214121122131328351115cb22112",
    "11h2122h26111232512242b25221521112h4256142141212611211111613161a2f12141114311b2j0391e1e1hn42h",
    "sf3h32j3141kta1c1il9111hrtma1sa1q02c2e12akbha12h71h4129h52qei22n022132l3231hg71jfb61h87228c12",
    "42142d221829153c38321114161316l6j0k658234a3112312au3c41hhbif1a1r9n0d397ie178e4979"]

def emojiComponentChanges : List String :=
  ["i31615ahvt31t51ttib1vjt6hahvb5lr04sgmmcm0"]

def emojiModifierChanges : List String :=
  ["hvjvb5"]

def emojiModifierBaseChanges : List String :=
  ["imhd1tb1h04hssn71jc32123n522bh5h33143137111h81s9241h5142qe335l31h0391b1ijf12188619a23j81jd212",
    "11h131du53ia9"]

def emojiPresentationChanges : List String :=
  ["ijha2sd43121ig92h52j2cib1h31d182h12528151h51721141217142hc1i31114311jd3h81e1jlb2j3141hskqe1sa",
    "1re12akbha11h81h412513h52qei1c91k61h6cib45ch1313k7111rb2jfd41h8h21ha2d1l6l5j0k661332344b279u3",
    "c41hhbif1a1r9n0d397ie178e4979"]

def extendedPictographicChanges : List String :=
  ["q9141hvod1c1t81h61la6f2hmf2c1lf1k61h9b43s71u72a191ja4161c1n2an62b1111613161a2f12141114311b5id",
    "391e1e1hn42hsf3h32j3141kta1c1il9111hrtm6hg0d3hf1jc6c2e12ah2j9hbfa1h4129149hr25hje8hgaj0o0n4cl",
    "5ibc4j88a6i88hel2cif1a1hr9hg0jve"]

def extenderChanges : List String :=
  ["r71ih82jme1hr91jla1iv01nf1pk31j81im31hoe1k41hjo91ib5m72ld3mvh61lv61js21h61o91mc1h52lknb1oh02r",
    "ta1im83ksf1lgq92kpc211nhl82og63"]

def graphemeBaseChanges : List String :=
  ["i0lfi1d1il2n082647111h41u07q61i62j223ie11121219hb46h1ab11ieh5h01m58162214i0211hehdl9b1eib973h",
    "84191317f1h9511b5hfh1iaj9j7111484137a2hd1218222h61711343112622211d2134h85116422h61712121243h8",
    "4117a2311c119131h617121534811231f24c718218222h617121531216222f2134h2b116331432111232333c51123",
    "31331h5h56318131h71h03134h3321224a7a1b131h71a153212122212h12124a13eb131i92112531312431a4ha221",
    "h23h819112792677a23cj012b88di5211151h8111a129125119a24i0h82hb11111e1i4h215125j18161di5id41612",
    "22h9243h04d12261f1i811512hn9142711142i9142i1142711142f1j9142k35hd3ha6l6262ipd3l97h2319h3239h2",
    "ed13fj4217812b93a6a6b5a6l9752i2115k6ahf44234216713ia25bic4ha6b3j9223j811911286da6a6el6j071151",
    "a3hb9b3i042213j8112311328j0825f3jc7ib2bb1d1741613215s0k0hh6262i626281111111hf2j51f1e261h32319",
    "1b5h87j1h022hb1d3i1jfoc4ip7h9bh5nh42i01hl8325id11512j872fh79717171717171717i1lei2ha1l9ct6hac4",
    "ia6h01l64m55ib1le1l4cif1nimd3j79hlch4if41ai02l0268sb521115h8h013141h9254a6j88k4ach8d1i68h9b2b",
    "he6j012422h01b471h91i96222b318112a2i01j31132252111h8h128b6262697171jc4n512143a6irq4ch74j1ihg4",
    "hme2mai67c5511h8151112121ndh0hrd2j671i0h0h0ah6i31h314451o74pd2hf362626233717d22c1ha1h3121f2ei",
    "2nb534id3l81d31ifido3hd3j1h0hb4i49he5i6ahe1i54eiape2a6i44i44i88j4bc1f17121b1f1712k3hj79h6a8h8",
    "61ia19k56211ic12312h71k889j0h3125i13hb51k0j84h42iff4131hda9797k0i0i56c9j63hd2hb5ha74c7l0k9j7j",
    "3dj37iacahi6hf1ia3122kei88h6b9h6h244i6hch4h7911j6f74he1221cj1422214eh97a9i4519h28i313bj49a421",
    "h01h4bh21hc32112612jf711141f1b6if13da8218222h6171215311114222321c7pcj882311h51113hej012611211",
    "21248aq6if1264212hbi4j3821124ba6dh3ib111261126aj6hb52419h7r9if9121m4l3c82128121h815124114139a",
    "k682ia8414hb1ai8624891623ied129dk97av691i6e116ahd3i0h917121kb7121i6h519a66121i54211117ahj6h32",
    "49f1i482111h7l61fj2djpbm6mf15bs4qkcm3dkj0h16vr9ik7ihr9ij97hf1a4l11a6he71aj07faa171h55h3ir0lbm",
    "5kb5j8bdk04c2ehnv88kt6ia9iiu7417121hi3f1hd321e48hocpg4mb5d397a2121hir0n4jcv6ai72jc1134h527he4",
    "jdh5k231nah4ch4cl79h9o7l51k7122122241c11171k11428171hc141511371hl42hi42ij2j74j281e17kn4hf66hg",
    "5jep2ida72a42hk0heh2ic4a51ht0hc4aiu6714121f1s529j0k4714a42jh1k4kcjds241hb1211211a141111614111",
    "111312112111111111121124171414111a1h153151h1j42hgeic4m4cf2f1f1i5aqej8hddic4972e6pajt84h13d3n7",
    "4lf6c41fc4j88a6i88he22kehl4ce2d397ie178e49797p31j7i5akg6qmu0i0hgja6te2hmo2ehtj1shfihelu2hjkb5",
    "hgm0"]

def graphemeExtendChanges : List String :=
  ["jg0n0hh37hg7id11121211k8bj0h5h01m57262214i31hehblbbja991h84191315ib3jc8iah81i0j7111484137a2hd",
    "1ja111248191a2ha122j9142422331he231b2j91451241h42h6611ja112148173a2he1jb111c191i8131j71135314",
    "72b2hd1ja12121315272b2hc2j9211248191a2hd1k8141231181l1127c8m2129b7k92hb11111j7e15125b1i491m64",
    "161222h9243h04d12261f1irf3jr23hd2he2he2k0217812b91id311n52i21n63429163tb221ja1171111286a21j0h",
    "fj14j071151i89c2i042213j81123113ja822p831d17416132s6k0igc1s3i1rve3od1m0i0iia6m92nlt441ai02l02",
    "hh013141h9251p72hah2d1i68h9bie3j012422i71k362222c181if1j3113225211ia281ue12141kvj01iu1h0h0h0h",
    "me2ild1u21p55mo631254i8341q52ijd4ho32l03k6bj14nb1j6fi9122a3j142271jd3i4518je1c2j49a421lf32112",
    "6121pd138h52j921111h61e735s382311h71l112611211212ub1246212hb2l582112ma1112611m532415hg3912v51",
    "a21141p042241i0ai8624819623ied12hp671611l2h6271212na631121711k823111hlb2b2j455111hkvd16fjmpa5",
    "jb7kh81jf4l11ksr82him1ie2h7ihe113458827he4p43nrbj74j281e1h651fll071h1271215m41q07hn71jd4hvc4j",
    "u07md7shmt5m0o0v0"]

def graphemeLinkChanges : List String :=
  ["pkd1nf1nf1nf1nf1nf1nf1nf1md2h01nc1mf1nf1s91r42mt92he1pd1iod1u31m52k62hhob1nqo61i51p71oe1mc1hj",
    "51v61lul11mg61i91e1j91n92ob1n41r41m21v41nf1vc1nf1n61n41hgd1hg32q11l31h21l11hq51hg42l11hq92"]

def hexDigitChanges : List String :=
  ["j0a76ha6vuq9a76ha6"]

def hyphenChanges : List String :=
  ["id1nf1ktc1hinb1og92ug51iu31stm71q91l71"]

def idsBinaryOperatorChanges : List String :=
  ["ivv0228"]

def idsTrinaryOperatorChanges : List String :=
  ["ivv22"]

def idContinueChanges : List String :=
  ["j0a7ha411haif1a111215h71hf1hsa4ce57111h1n512241165111h41l31ob152q61i6216i98id111212118hb44hdb",
    "5ka4m6182a1h321h0jb2m5ej641212ieh2hc4b5h8169ka1o12a1h318222h61711342922248142152ca1112316422h",
    "617121212211542233174117h0b319131h61712152a131321f42a971318222h61712152922237342152a11h021633",
    "1432111232333c4533142161eah0d131h71h0291314721321242ah0418131h71a152913147262142a13cd131j3131",
    "554752aa6131h23h8191127314611186a22dja5f1ai7211151h8111h72511171a24i01h726ab111114a1i44h41h21",
    "i491j9ka6ke2i611512ib1hkd142711142i9142i1142711142f1j9142k32399eh0h0l6263imc2h11ha5kb3b7h69h6",
    "bh4cd1312cl431422ai131b6l97ib5k6ahf1c4cai825bic4ha6bi5hc4jf1hd2b6ad18e1h0j1kd3ah19cn4cj88a3j1",
    "297ib23h031i75ih6262i626281111111hf2j51711331734264d5317k22h31hc1d1h0dj3d413ch11412a112661111",
    "11h0245541h1i9qn7u569ci611512j871fh897171717171717171i0ig53h9f15254l6271la145ib1leh1i0j0h0ig0",
    "hps0k0lmodk3ie2hgd3hch4j04a1n3i592m72k0521115h8j641h3j4ck6aa6h8311j12i4chd3k1eb6hf1j79e2a6h73",
    "k9h832h025a6262697171ib1e6nb122a6irq4ch74j1ihg4hme2mai67c55c1d151112121mci1hmbh2k02j6i8c4h0h0",
    "h032h83i051o7h3a7ha411habl936262623i3c1ha1h3121f2ei2nbk5j5o81o2hd3j1f1hfi0dhe5ib5he2i44815iap",
    "e2a6i44i44i88j4cb1f17121b1f1712k3hj79h6a8h861ia19k56211ic12312h7ah79hfk1h312ah6ahak6j862k0412",
    "58131hd2341i0hd3hdi381heh9j6ah6ah3dh2mek9j7j3dj3di88ahk6ia1232kbi0a18i1hfh6iah5hbh79k7hfh09jc",
    "71dh97a6j51a448i4219k5441d11i3h21i564je711141f1a7jb5a6418222h61712151a22232161572735obkb5a44h",
    "ek6118aq6j629h76i2k131bai6j97aj6hb2f4a67r9jbm5kah582128121he1229cak682ie2812hbjf818ka31h2k9hg",
    "791id19fah8he2h61ek97121ic3112198a66121i512167ahj6h79h11i935dal61kfjpam6mfh1s4qkcm1fkj0h0h6vq",
    "aik7ihr9ij97hf1a6kf1a6he25bj794ca9h55h3ir0k0o0kb4j97h1k0212b2ehnv88kt6ia9iiu7417121hi3f1hd321",
    "e48hocpg4mb5d397a32him1ie2h7ihe5368827he4p43hrbl51k7122122241c11171k11428171hc141511371hl42h9",
    "1h91hf1h91hf1h91hf1h91hf1h9182j2ig0j74j281e1h651fkl0hf66t571h12712155jei11n0id3e2a41hk1hfh1ja",
    "ht6iaiu6714121f1s5b7i9kc4akq641hb1211211a141111614111111312112111111111121124171414111a1h1531",
    "51h1tj4akg6qmu0i0hgja6te2hmo2ehtj1shfihelu2hjkb5hgm0qttl0v0"]

def idStartChanges : List String :=
  ["k1ha6haif1a1415h71hf1hsa4ce57111o151224116113111h41l31ob8q61i6216i9k7hb44idibi321m311f272a321",
    "h011hehdl9b1h8i192415h6419131h7h97b5h816h1iajaj631h217afh048222h617113431h01d213e2a186422h617",
    "121212hf411h33h09131h617121531h21f2h71b8222h617121531he213f1h1116331432111232333ch61j48131h71",
    "h031ha32122he148131h71a1531hf212f2h19131i921h015383h865h23h8191127jaj012c7ja211151h8111a12912",
    "511h54i01jf81i4hb5n3ibh41h06443132734dc1h1i611512ib1hkd142711142i9142i1142711142f1j9142k3i5h0",
    "h0l6263imc2h11ha5kb3b7h2dh3eh2ed13fj4i3141k3l97i9115k6ahfj1he25bic4haj6h79j5l21ldifh18j6hed2a",
    "ichai4i93ai4297ib23i941612315s0k0hh6262i626281111111hf2j51711331734264d5317n41d1h0dm51412a112",
    "66111111h0245541h1i9qn7u56432ci611512j871h0h79717171717171717ii63h9975254l6451la145ib1leh1i0j",
    "0h0ig0hps0k0lmodk3ie2hgd3h0a2h4ifh0hf2l0i792m72k0521115h8h013141h7hdj4ej2je63112bhcah7h9hd7if",
    "hc1h051aa51i9h7318h4h7313j21132252111h832b73c6262697171ib1e6n3hdirq4ch74j1ihg4hme2mai67c5511a",
    "1d151112121mci1hmbh2k02j6i8cn451o7i4ha6habl936262623i3c1ha1h3121f2ei2nbk5j5hgbhd3j1ifi0dhe5i6",
    "ahe2i44815iapeh2i44i44i88j4cb1f17121b1f1712k3hj79h6a8h861ia19k56211ic12312h7ah79hfk1h312ah6ah",
    "ak6j862k01f4131hdiahd3hdi381hchbj6ah6ah3dh2mek9j7j3dj3di4hlcia62kehda18h6iah2ieh5hbh7cj5j9221",
    "didi0h9hai4hd1218i331cj0e4h5111i3h21h9h32jf711141f1a7ifi68222h617121531h21c5pej5h24h43hej0h42",
    "11r8ifi94i4j0h41jbibd1k7hbi57r9icn4k0hf82128121h8f111le82i7h0111hc1ai871h51bieh31h2k9hg791i5h",
    "11j1hen07121i6h51h96121i0e1hk7h3f11d1i2nc1kfjpam6mfh1s4qkcm1fkj0h16vr9ik7ihr9ij97hfh1kfh1heh2",
    "j0h04hfh55h3ir0k0o0kb51k2dk0211hchnv88kt6ia9iiu7417121hi3f1hd321e48hocpg4mb5d397ahnm6l51k7122",
    "122241c11171k11428171hc141511371hl42h91h91hf1h91hf1h91hf1h91hf1h918nj4hf66hg5jep2ida7h01hk1he",
    "h2ichu4hciv4714121f1s5jbk471kr441hb1211211a141111614111111312112111111111121124171414111a1h15",
    "3151h1hhk4qmu0i0hgja6te2hmo2ehtj1shfihelu2hjkb5hgm0"]

def ideographicChanges : List String :=
  ["jgg62h99e3js5hps0k0lig0lpg0hme2manlga1hbhnv88kt6ia9ikm7hocktg4qmu0i0hgja6te2hmo2ehtj1shfihelu",
    "2hjkb5hgm0"]

def joinControlChanges : List String :=
  ["iggc2"]

def logicalOrderExceptionChanges : List String :=
  ["uk05nb5qv0321pgva22112"]

def lowercaseChanges : List String :=
  ["m1haif1a141i4h8181111111111111111111111111111111111111111111111111111111211111111111111121111",
    "111111111111111111111111111111111111111111211113211121324121332121111121121121311122236121211",
    "111111111111112111111111111111112211131111111111111111111111111111111111111111111111111111111",
    "1117212211411111111k51i472he5m01ib1113124h21hbi31233111111111111111111111115112122j3j01111111",
    "111111111111111111111111111911111111111111111111111111111111111111111111111111111211111111111",
    "121111111111111111111111111111111111111111111111111111111111111111111111111111111111111111111",
    "11111j0i9rk7ib14iv86oo29n7s0k1111111111111111111111111111111111111111111111111111111111111111",
    "111111111111111111111111111111111111111111111111111111111111111111111111111111111111191111111",
    "111111111111111111111111111111111111111111111111111111111111111111111111111111111111111111986",
    "a88886a8888e2888888512613312842288a312n91d1h0dmd13231hb14141228441i1h041jkbhank6j011321111114",
    "112183111111111111111111111111111111111111111111111111111111111111111111111111111111111111111",
    "111111111112711141ci61151nph3111111111111111111111111111111111111111111111h311111111111111111",
    "1111111113o511111111111131111111111111111111111111111111111111111111111111111111111111a111121",
    "11111111411121131111111111111111111151511111111111111141116111111111h831113jj5ib1e6l0kvk07c5k",
    "i9haksdi8o8i4pbb1f1712hs31231ia19lg5j3rsdi0llo0i0mlpahaha71h2hahaha411171bhahahahahahahahahah",
    "ahahahahahahahahchch916hah916hah916hah916hah91611nj4a1h466hg5jeor4i2"]

def mathChanges : List String :=
  ["ib1h03hf1hd111id141i51hf1it8321ha223igf3hqgd1hb3b131d1e4h55b5k1d413245h21412a112661322213163e",
    "11k4h81612424i01162ehgc84h42la1hehb11h81b7hrd2ca46422235e11126b852j9111hd493hl0k0hg0ig0j0h526",
    "svtc1jj7611q21h03hd111hd111o3164tkh3l51k7122122241c11171k11428171hc141511371hl42hi42j2hmg041h",
    "b1211211a141111614111111312112111111111121124171414111a1h153151h1j42"]

def noncharacterCodePointChanges : List String :=
  ["vtt0i0ige2vvve2vvve2vvve2vvve2vvve2vvve2vvve2vvve2vvve2vvve2vvve2vvve2vvve2vvve2vvve2vvve2"]

def otherAlphabeticChanges : List String :=
  ["jk51imae11121211k8bj0d17h01m57442241i31heh0m6bm52391314q7c376h4j622f1253a2hd3ja72222a1a2hd3ja",
    "5422241he231b3ja81312h52h6343ja7222292a2he1jb53313a1i85j97131382b2hd3ja7131382b2f1c4ja71313a1",
    "a2hd3kb61118h22jd127h21m312612h01q3h39b1i4mec1124h7443132734dc11a4mn42he2he2he2k2h3rc2i21n6c4",
    "9te5j9a2h4ka2b3j15j0fjc3he922j9bj2h3hr0ems1j4ov6i0non48i22hm2181h75l82j2h011j91i65hccid4j0ci5",
    "1k3ec182id3j21132251ic551ud8kvj31ol75mo631254jh44ho32hl33j5eid2b3id991jd3i4ch22j93j0de2lc9216",
    "121pdah74ja72222a1a2t1d13mah2ud727hd2l2f11mabm7ehg1dv7612223111oe72641hcaia514h2bieehp7817l3h",
    "61ena63112131131k251214hlc49211j0733lgge11j774ld2ksqc1ijm171h1271215m41or71nu8ha6ha6ha"]

/-- Where the property Other_Default_Ignorable_Code_Point begins and ends. -/
def otherDefaultIgnorableCodePointChanges : List String :=
  ["jkf1ugf2ml32oqf1hgve1sujb1kf9tggg711hem0o0v0uh0"]

def otherGraphemeExtendChanges : List String :=
  ["pre1h81hm61h81m61h81ua1h22m71h81n71f1tl51kt61hgi12svme2hjpe1h81hl81c1v11jo01roj4185siuqdm0"]

def otherIdContinueChanges : List String :=
  ["r71isf1vu19mm81"]

def otherIdStartChanges : List String :=
  ["hoo52op11h51vmc2"]

def otherLowercaseChanges : List String :=
  ["qa1f1hv5972he5m01j41to11sifjfd1i2i5ir11d1h0dt3h0jl0hanp22nqhe2t21o1332jm2491lsh61231ia19ton5j",
    "e"]

def otherMathChanges : List String :=
  ["le1jn1321ha222hsi01hb3b1i04h82e2k1d413245h21412a113561322213163455kb5241212111522424h22211171",
    "162hi24q8211h81h11hrd2c955522235e11126h82j9111hd492hl62hfahp3h6jf4i02tkm311141t3111tks1l51k71",
    "22122241c11171k11428171hc141511371hl42h91h91hf1h91hf1h91hf1h91hf1h9182j2hmg041hb1211211a14111",
    "1614111111312112111111111121124171414111a1h153151h1"]

def otherUppercaseChanges : List String :=
  ["ihm0h0jk6hahssm0ha6ha6ha"]

def patternSyntaxChanges : List String :=
  ["i1fa7ha411ha4i2711121112414131h71hf1hvh8h88f2h31ahj1it0q0in6hekmcig0o0ho134h9f1stgd2hg52"]

def patternWhiteSpaceChanges : List String :=
  ["95h21m41hvo82h82"]

/-- Where the property Prepended_Concatenation_Mark begins and ends. -/
def prependedConcatenationMarkChanges : List String :=
  ["mg06t71j11ho02l01hgnta1f1"]

def quotationMarkChanges : List String :=
  ["i2141o31f1hvlc8h92ug71hs94d3sui14rd141la2"]

def radicalChanges : List String :=
  ["iuo0ha1l9ct6"]

def regionalIndicatorChanges : List String :=
  ["hvhu6ha"]

def sentenceTerminalChanges : List String :=
  ["i11c1h01lk91p33r41ib3v61jd11132hi52mu42jh6142jg51s62sc151hja2hm24qe222hd2rc2k12jrc293tu41d1h6",
    "2hqd1nkvc1hge2u3131hne2l62lf1p82p33p02v91lim6132q91c1h01k11qv42kvd5ic4rd2n54nf3o1261h02l8212m",
    "c1hq12hn525fm92v93ig5111vb2l72hq42ir42ka2kri92o51k12b1jl31kug61htu81"]

def softDottedChanges : List String :=
  ["m92s41hh91he1j41h41hk01m2111hpg91j31d131o41pd1hq51t62rj21hqnq52j22j22j22j22j22j22j22j22j22j22",
    "j22j22oo61hj12ha1"]

def terminalPunctuationChanges : List String :=
  ["i11a111b231jje181ig11j91k81e113r41ibb11ub2j6fhf1hg52kv42qc146hj72jh58jg51nc3k72pd331i7422hja2",
    "hm24qe213hd2rc5je2jrc293tu41d141a11232hqc2nkvb2hgd3u35hne2l62lf1p73p33nf1h02v91lim4314q91a111",
    "b231k1121kja1j01ko61s71hj62p86k46l94jr85ic4rd7n04nf3o1261h02l85mc1hq13c2hm643fm92v93ig5111vb2",
    "l7242hpe3id1io52ka2lib5klv92o51k13a1jl22kug61htu74"]

def unifiedIdeographChanges : List String :=
  ["jkg0hps0k0lig0lqge21112a1111223hglt6qmu0i0hgja6te2hmo2ehtj1hkhfhjkb5hgm0"]

def uppercaseChanges : List String :=
  ["k1ham5h717i1111111111111111111111111111111111111111111111111111111121111111111111112111111111",
    "111111111111111111111111111111111111121111321112132412133212111112112112131112317121212111111",
    "111111111211111111111111111212113111111111111111111111111111111111111111111111111111111111172",
    "12211411111111hi11113181611311121h119i31233111111111111111111111115121122j3j01111111111111111",
    "111111111111111119111111111111111111111111111111111111111111111111111111211111111111121111111",
    "11111111111111111111111111111111111111111111111111111111111111111111111111111111111111112i6rk",
    "9i61151it2l6opaib23hk011111111111111111111111111111111111111111111111111111111111111111111111",
    "111111111111111111111111111111111111111111111111111111111111111111111111111111911111111111111",
    "111111111111111111111111111111111111111111111111111111111111111111111111111111111119886a88886",
    "b111111188k84c4c4c5b4hg6141332321356111111424a251hah0h31jj2hanj0j0j01132111111411218311111111",
    "111111111111111111111111111111111111111111111111111111111111111111111111111111111111111111811",
    "141npkd111111111111111111111111111111111111111111111h3111111111111111111111111111o71111111111",
    "11131111111111111111111111111111111111111111111111111111111111111a111121111111141112111311111",
    "111111111111111515111111111111111411615111hc1lnibhaks5i8o8i4pcb1f1712muaj3rudi0llo0i0mlq0haha",
    "hahahaha11221222418hahaha2142817hb214151137hbhahahahahahahahahahahaheh9i1h9i1h9i1h9i1h9i11hhj",
    "5i2ogeha6ha6ha"]

def variationSelectorChanges : List String :=
  ["hogb311ulv0h0tgiv0v0"]

def whiteSpaceChanges : List String :=
  ["95h21m41ha1hltf1pnfbhd251if1vq01"]

def xidContinueChanges : List String :=
  ["j0a7ha411haif1a111215h71hf1hsa4ce57111h1n512331165111h41l31ob152q61i6216i98id111212118hb44hdb",
    "5ka4m6182a1h321h0jb2m5ej641212ieh2hc4b5h8169ka1o12a1h318222h61711342922248142152ca1112316422h",
    "617121212211542233174117h0b319131h61712152a131321f42a971318222h61712152922237342152a11h021633",
    "1432111232333c4533142161eah0d131h71h0291314721321242ah0418131h71a152913147262142a13cd131j3131",
    "554752aa6131h23h8191127314611186a22dja5f1ai7211151h8111h72511171a24i01h726ab111114a1i44h41h21",
    "i491j9ka6ke2i611512ib1hkd142711142i9142i1142711142f1j9142k32399eh0h0l6263imc2h11ha5kb3b7h69h6",
    "bh4cd1312cl431422ai131b6l97ib5k6ahf1c4cai825bic4ha6bi5hc4jf1hd2b6ad18e1h0j1kd3ah19cn4cj88a3j1",
    "297ib23h031i75ih6262i626281111111hf2j51711331734264d5317k22h31hc1d1h0dj3d413ch11412a112661111",
    "11h0245541h1i9qn7u569ci611512j871fh897171717171717171i0ig53h9f15254l622231la145ib1leh1i0j0h0i",
    "g0hps0k0lmodk3ie2hgd3hch4j04a1n3i592m72k0521115h8j641h3j4ck6aa6h8311j12i4chd3k1eb6hf1j79e2a6h",
    "73k9h832h025a6262697171ib1e6nb122a6irq4ch74j1ihg4hme2mai67c55c1d151112121mci1ob6tah2k02j6i8a6",
    "h0h0h032h83i1111311111111neh3a7ha411habl936262623i3c1ha1h3121f2ei2nbk5j5o81o2hd3j1f1hfi0dhe5i",
    "b5he2i44815iape2a6i44i44i88j4cb1f17121b1f1712k3hj79h6a8h861ia19k56211ic12312h7ah79hfk1h312ah6",
    "ahak6j862k041258131hd2341i0hd3hdi381heh9j6ah6ah3dh2mek9j7j3dj3di88ahk6ia1232kbi0a18i1hfh6iah5",
    "hbh79k7hfh09jc71dh97a6j51a448i4219k5441d11i3h21i564je711141f1a7jb5a6418222h61712151a222321615",
    "72735obkb5a44hek6118aq6j629h76i2k131bai6j97aj6hb2f4a67r9jbm5kah582128121he1229cak682ie2812hbj",
    "f818ka31h2k9hg791id19fah8he2h61ek97121ic3112198a66121i512167ahj6h79h11i935dal61kfjpam6mfh1s4q",
    "kcm1fkj0h0h6vqaik7ihr9ij97hf1a6kf1a6he25bj794ca9h55h3ir0k0o0kb4j97h1k0212b2ehnv88kt6ia9iiu741",
    "7121hi3f1hd321e48hocpg4mb5d397a32him1ie2h7ihe5368827he4p43hrbl51k7122122241c11171k11428171hc1",
    "41511371hl42h91h91hf1h91hf1h91hf1h91hf1h9182j2ig0j74j281e1h651fkl0hf66t571h12712155jei11n0id3",
    "e2a41hk1hfh1jaht6iaiu6714121f1s5b7i9kc4akq641hb1211211a14111161411111131211211111111112112417",
    "1414111a1h153151h1tj4akg6qmu0i0hgja6te2hmo2ehtj1shfihelu2hjkb5hgm0qttl0v0"]

def xidStartChanges : List String :=
  ["k1ha6haif1a1415h71hf1hsa4ce57111o151233116113111h41l31ob8q61i6216i9k7hb44idibi321m311f272a321",
    "h011hehdl9b1h8i192415h6419131h7h97b5h816h1iajaj631h217afh048222h617113431h01d213e2a186422h617",
    "121212hf411h33h09131h617121531h21f2h71b8222h617121531he213f1h1116331432111232333ch61j48131h71",
    "h031ha32122he148131h71a1531hf212f2h19131i921h015383h865h23h8191127jaj011d7ja211151h8111a11a12",
    "511h54i01jf81i4hb5n3ibh41h06443132734dc1h1i611512ib1hkd142711142i9142i1142711142f1j9142k3i5h0",
    "h0l6263imc2h11ha5kb3b7h2dh3eh2ed13fj4i3141k3l97i9115k6ahfj1he25bic4haj6h79j5l21ldifh18j6hed2a",
    "ichai4i93ai4297ib23i941612315s0k0hh6262i626281111111hf2j51711331734264d5317n41d1h0dm51412a112",
    "66111111h0245541h1i9qn7u56432ci611512j871h0h79717171717171717ii63h9975254l6631la145ib1leh1i0j",
    "0h0ig0hps0k0lmodk3ie2hgd3h0a2h4ifh0hf2l0i792m72k0521115h8h013141h7hdj4ej2je63112bhcah7h9hd7if",
    "hc1h051aa51i9h7318h4h7313j21132252111h832b73c6262697171ib1e6n3hdirq4ch74j1ihg4hme2mai67c5511a",
    "1d151112121mci1ob6tah2k02j6i8an7111311111111nei4ha6habj82hf36262623i3c1ha1h3121f2ei2nbk5j5hgb",
    "hd3j1ifi0dhe5i6ahe2i44815iapeh2i44i44i88j4cb1f17121b1f1712k3hj79h6a8h861ia19k56211ic12312h7ah",
    "79hfk1h312ah6ahak6j862k01f4131hdiahd3hdi381hchbj6ah6ah3dh2mek9j7j3dj3di4hlcia62kehda18h6iah2i",
    "eh5hbh7cj5j9221didi0h9hai4hd1218i331cj0e4h5111i3h21h9h32jf711141f1a7ifi68222h617121531h21c5pe",
    "j5h24h43hej0h4211r8ifi94i4j0h41jbibd1k7hbi57r9icn4k0hf82128121h8f111le82i7h0111hc1ai871h51bie",
    "h31h2k9hg791i5h11j1hen07121i6h51h96121i0e1hk7h3f11d1i2nc1kfjpam6mfh1s4qkcm1fkj0h16vr9ik7ihr9i",
    "j97hfh1kfh1heh2j0h04hfh55h3ir0k0o0kb51k2dk0211hchnv88kt6ia9iiu7417121hi3f1hd321e48hocpg4mb5d3",
    "97ahnm6l51k7122122241c11171k11428171hc141511371hl42h91h91hf1h91hf1h91hf1h91hf1h918nj4hf66hg5j",
    "ep2ida7h01hk1heh2ichu4hciv4714121f1s5jbk471kr441hb1211211a14111161411111131211211111111112112",
    "4171414111a1h153151h1hhk4qmu0i0hgja6te2hmo2ehtj1shfihelu2hjkb5hgm0"]

/-- The properties, with their names and tables. -/
def binaryProperties : List (List String × List String) :=
  [(["ASCII_Hex_Digit", "AHex"], asciiHexDigitChanges),
    (["Alphabetic", "Alpha"], alphabeticChanges),
    (["Bidi_Control", "Bidi_C"], bidiControlChanges),
    (["Bidi_Mirrored", "Bidi_M"], bidiMirroredChanges),
    (["Case_Ignorable", "CI"], caseIgnorableChanges), (["Cased"], casedChanges),
    (["Changes_When_Casefolded", "CWCF"], changesWhenCasefoldedChanges),
    (["Changes_When_Casemapped", "CWCM"], changesWhenCasemappedChanges),
    (["Changes_When_Lowercased", "CWL"], changesWhenLowercasedChanges),
    (["Changes_When_Titlecased", "CWT"], changesWhenTitlecasedChanges),
    (["Changes_When_Uppercased", "CWU"], changesWhenUppercasedChanges), (["Dash"], dashChanges),
    (["Default_Ignorable_Code_Point", "DI"], defaultIgnorableCodePointChanges),
    (["Deprecated", "Dep"], deprecatedChanges), (["Diacritic", "Dia"], diacriticChanges),
    (["Emoji"], emojiChanges), (["Emoji_Component", "EComp"], emojiComponentChanges),
    (["Emoji_Modifier", "EMod"], emojiModifierChanges),
    (["Emoji_Modifier_Base", "EBase"], emojiModifierBaseChanges),
    (["Emoji_Presentation", "EPres"], emojiPresentationChanges),
    (["Extended_Pictographic", "ExtPict"], extendedPictographicChanges),
    (["Extender", "Ext"], extenderChanges), (["Grapheme_Base", "Gr_Base"], graphemeBaseChanges),
    (["Grapheme_Extend", "Gr_Ext"], graphemeExtendChanges),
    (["Grapheme_Link", "Gr_Link"], graphemeLinkChanges), (["Hex_Digit", "Hex"], hexDigitChanges),
    (["Hyphen"], hyphenChanges), (["IDS_Binary_Operator", "IDSB"], idsBinaryOperatorChanges),
    (["IDS_Trinary_Operator", "IDST"], idsTrinaryOperatorChanges),
    (["ID_Continue", "IDC"], idContinueChanges), (["ID_Start", "IDS"], idStartChanges),
    (["Ideographic", "Ideo"], ideographicChanges),
    (["Join_Control", "Join_C"], joinControlChanges),
    (["Logical_Order_Exception", "LOE"], logicalOrderExceptionChanges),
    (["Lowercase", "Lower"], lowercaseChanges), (["Math"], mathChanges),
    (["Noncharacter_Code_Point", "NChar"], noncharacterCodePointChanges),
    (["Other_Alphabetic", "OAlpha"], otherAlphabeticChanges),
    (["Other_Default_Ignorable_Code_Point", "ODI"], otherDefaultIgnorableCodePointChanges),
    (["Other_Grapheme_Extend", "OGr_Ext"], otherGraphemeExtendChanges),
    (["Other_ID_Continue", "OIDC"], otherIdContinueChanges),
    (["Other_ID_Start", "OIDS"], otherIdStartChanges),
    (["Other_Lowercase", "OLower"], otherLowercaseChanges),
    (["Other_Math", "OMath"], otherMathChanges),
    (["Other_Uppercase", "OUpper"], otherUppercaseChanges),
    (["Pattern_Syntax", "Pat_Syn"], patternSyntaxChanges),
    (["Pattern_White_Space", "Pat_WS"], patternWhiteSpaceChanges),
    (["Prepended_Concatenation_Mark", "PCM"], prependedConcatenationMarkChanges),
    (["Quotation_Mark", "QMark"], quotationMarkChanges), (["Radical"], radicalChanges),
    (["Regional_Indicator", "RI"], regionalIndicatorChanges),
    (["Sentence_Terminal", "STerm"], sentenceTerminalChanges),
    (["Soft_Dotted", "SD"], softDottedChanges),
    (["Terminal_Punctuation", "Term"], terminalPunctuationChanges),
    (["Unified_Ideograph", "UIdeo"], unifiedIdeographChanges),
    (["Uppercase", "Upper"], uppercaseChanges),
    (["Variation_Selector", "VS"], variationSelectorChanges),
    (["White_Space", "WSpace", "Space"], whiteSpaceChanges),
    (["XID_Continue", "XIDC"], xidContinueChanges), (["XID_Start", "XIDS"], xidStartChanges)]

end Variability.Text.Property
