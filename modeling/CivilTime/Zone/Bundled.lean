import CivilTime.Tzif.Description
import CivilTime.Zone.Catalogue

/-!
# Bundled zones

The zones that need no outside source. Their TZif files are kept in hexadecimal, and identifiers are
looked up without regard to ASCII case.
-/
namespace CivilTime.Zone.Bundled

def hexDigit (c : Char) : Nat :=
  if c.isDigit then c.toNat - 0x30 else c.toNat - 0x57

/-- The bytes that pairs of hexadecimal digits denote. -/
def ofHex : List Char → List UInt8
  | high :: low :: rest => UInt8.ofNat (hexDigit high * 16 + hexDigit low) :: ofHex rest
  | _ => []

/-! ### Files -/

def utc : String :=
  "545a696632000000000000000000000000000000000000000000000000000000000000000000000100000001"
    ++ "00000000000000545a6966320000000000000000000000000000000000000000000000000000000000000000"
    ++ "00000100000004000000000000555443000a555443300a"

def gmt : String :=
  "545a696632000000000000000000000000000000000000000000000000000000000000000000000100000001"
    ++ "00000000000000545a6966320000000000000000000000000000000000000000000000000000000000000000"
    ++ "00000100000004000000000000474d54000a474d54300a"

def fiveHoursWest : String :=
  "545a696632000000000000000000000000000000000000000000000000000000000000000000000100000001"
    ++ "00000000000000545a6966320000000000000000000000000000000000000000000000000000000000000000"
    ++ "00000100000004ffffb9b000002d3035000a3c2d30353e350a"

def tokyo : String :=
  "545a696632000000000000000000000000000000000000000000000000000000000000000000000100000001"
    ++ "00000000000000545a6966320000000000000000000000000000000000000000000000000000000000000900"
    ++ "0000030000000cffffffff65c2a470ffffffffd73e0270ffffffffd7ed59f0ffffffffd8f8fa70ffffffffd9"
    ++ "cd3bf0ffffffffdb0700f0ffffffffdbad1df0ffffffffdce6e2f0ffffffffdd8cfff0020102010201020102"
    ++ "00008303000000008ca0010400007e9000084c4d54004a4454004a5354000a4a53542d390a"

def paris : String :=
  "545a696632000000000000000000000000000000000000000000000000000000000000000000000100000001"
    ++ "00000000000000545a6966320000000000000000000000000000000000000000000000000000000000006500"
    ++ "0000070000001fffffffff6bc99bcfffffffff9160504fffffffff9b4778f0ffffffff9bd72c70ffffffff9c"
    ++ "bc9170ffffffff9dc048f0ffffffff9e89fe70ffffffff9fa02af0ffffffffa060a5f0ffffffffa1800cf0ff"
    ++ "ffffffa22e12f0ffffffffa37a4cf0ffffffffa43581f0ffffffffa55e2370ffffffffa62535f0ffffffffa7"
    ++ "279bf0ffffffffa8582670ffffffffa9077df0ffffffffa9ee3470ffffffffaae75ff0ffffffffabd750f0ff"
    ++ "ffffffacc741f0ffffffffadc9a7f0ffffffffaea723f0ffffffffafa04f70ffffffffb08705f0ffffffffb1"
    ++ "896bf0ffffffffb2702270ffffffffb3728870ffffffffb4500470ffffffffb5492ff0ffffffffb62fe670ff"
    ++ "ffffffb7324c70ffffffffb80fc870ffffffffb8ffb970ffffffffb9efaa70ffffffffbad660f0ffffffffbb"
    ++ "d8c6f0ffffffffbcc8b7f0ffffffffbdb8a8f0ffffffffbe9f5f70ffffffffbf988af0ffffffffc09af0f0ff"
    ++ "ffffffc1786cf0ffffffffc2685df0ffffffffc3584ef0ffffffffc43f0570ffffffffc53830f0ffffffffc6"
    ++ "3a96f0ffffffffc758ac70ffffffffc7da09a0ffffffffc86c27e0ffffffffcce74b10ffffffffcda91790ff"
    ++ "ffffffcea24310ffffffffcf923410ffffffffd04fe1e0ffffffffd089f1f0ffffffffd1721610ffffffffd2"
    ++ "4e4090000000000bbb3900000000000cab1bf0000000000da46390000000000e8b1a10000000000f84459000"
    ++ "000000107436900000000011642790000000001254189000000000134d4410000000001433fa900000000015"
    ++ "23eb90000000001613dc90000000001703cd900000000017f3be900000000018e3af900000000019d3a09000"
    ++ "0000001ac39190000000001bbcbd10000000001cacae10000000001d9c9f10000000001e8c9010000000001f"
    ++ "7c811000000000206c721000000000215c631000000000224c541000000000233c451000000000242c361000"
    ++ "000000251c271000000000260c181000000000270543900000000027f534900000000028e525900000000029"
    ++ "d51690000000002ac50790000000002bb4f890000000002ca4e990000000002d94da90000000002e84cb9000"
    ++ "0000002f74bc90000000003064ad9000000000315dd910010302030203020302030203020302030203020302"
    ++ "0302030203020302030203020302030203020302030203020302030203020504050405060206040504050405"
    ++ "0405040504050405040504050405040504050405040504050405040504050405040504050000023100000000"
    ++ "0231000400000e10010800000000000d00000e10001100001c20011500001c20011a4c4d5400504d54005745"
    ++ "5354005745540043455400434553540057454d54000a4345542d31434553542c4d332e352e302c4d31302e35"
    ++ "2e302f330a"

def newYork : String :=
  "545a696632000000000000000000000000000000000000000000000000000000000000000000000100000001"
    ++ "00000000000000545a696632000000000000000000000000000000000000000000000000000000000000af00"
    ++ "00000500000014ffffffff5e03f090ffffffff9ea61e70ffffffff9fbaeb60ffffffffa0860070ffffffffa1"
    ++ "9acd60ffffffffa265e270ffffffffa383e9e0ffffffffa46aae70ffffffffa535a760ffffffffa653caf0ff"
    ++ "ffffffa7158960ffffffffa833acf0ffffffffa8fea5e0ffffffffaa138ef0ffffffffaade87e0ffffffffab"
    ++ "f370f0ffffffffacbe69e0ffffffffadd352f0ffffffffae9e4be0ffffffffafb334f0ffffffffb07e2de0ff"
    ++ "ffffffb19c5170ffffffffb2674a60ffffffffb37c3370ffffffffb4472c60ffffffffb55c1570ffffffffb6"
    ++ "270e60ffffffffb73bf770ffffffffb806f060ffffffffb91bd970ffffffffb9e6d260ffffffffbb04f5f0ff"
    ++ "ffffffbbc6b460ffffffffbce4d7f0ffffffffbdafd0e0ffffffffbec4b9f0ffffffffbf8fb2e0ffffffffc0"
    ++ "a49bf0ffffffffc16f94e0ffffffffc2847df0ffffffffc34f76e0ffffffffc4645ff0ffffffffc52f58e0ff"
    ++ "ffffffc64d7c70ffffffffc70f3ae0ffffffffc82d5e70ffffffffc8f85760ffffffffca0d4070ffffffffca"
    ++ "d83960ffffffffcb88f070ffffffffd223f470ffffffffd260fbe0ffffffffd375e4f0ffffffffd440dde0ff"
    ++ "ffffffd555c6f0ffffffffd620bfe0ffffffffd735a8f0ffffffffd800a1e0ffffffffd9158af0ffffffffd9"
    ++ "e083e0ffffffffdafea770ffffffffdbc065e0ffffffffdcde8970ffffffffdda98260ffffffffdebe6b70ff"
    ++ "ffffffdf896460ffffffffe09e4d70ffffffffe1694660ffffffffe27e2f70ffffffffe3492860ffffffffe4"
    ++ "5e1170ffffffffe5572ee0ffffffffe6472df0ffffffffe73710e0ffffffffe8270ff0ffffffffe916f2e0ff"
    ++ "ffffffea06f1f0ffffffffeaf6d4e0ffffffffebe6d3f0ffffffffecd6b6e0ffffffffedc6b5f0ffffffffee"
    ++ "bfd360ffffffffefafd270fffffffff09fb560fffffffff18fb470fffffffff27f9760fffffffff36f9670ff"
    ++ "fffffff45f7960fffffffff54f7870fffffffff63f5b60fffffffff72f5a70fffffffff82877e0fffffffff9"
    ++ "0f3c70fffffffffa0859e0fffffffffaf858f0fffffffffbe83be0fffffffffcd83af0fffffffffdc81de0ff"
    ++ "fffffffeb81cf0ffffffffffa7ffe0000000000097fef0000000000187e1e0000000000277e0f00000000003"
    ++ "70fe60000000000460fd70000000000550e060000000000640df70000000000730c26000000000078d197000"
    ++ "0000000910a4600000000009ad94f0000000000af08660000000000be08570000000000cd9a2e0000000000d"
    ++ "c06770000000000eb984e0000000000fa983f000000000109966e000000000118965f000000000127948e000"
    ++ "000000136947f00000000014592ae000000000154929f00000000016390ce00000000017290bf00000000018"
    ++ "222960000000001908edf0000000001a020b60000000001af20a70000000001be1ed60000000001cd1ec7000"
    ++ "0000001dc1cf60000000001eb1ce70000000001fa1b16000000000207600f000000000218193600000000022"
    ++ "55e2f000000000236aafe0000000002435c4f000000000254a91e0000000002615a6f000000000272a73e000"
    ++ "00000027fec37000000000290a55e00000000029dea570000000002aea37e0000000002bbe8770000000002c"
    ++ "d35460000000002d9e6970000000002eb33660000000002f7e4b70000000003093186000000000316767f000"
    ++ "0000003272fa6000000000334749f0000000003452dc600000000035272bf0000000003632be600000000037"
    ++ "070df000000000381bdae00000000038e6eff00000000039fbbce0000000003ac6d1f0000000003bdb9ee000"
    ++ "0000003cafee70000000003dbb80e0000000003e8fd070000000003f9b62e000000000406fb2700000000041"
    ++ "847f6000000000424f9470000000004364616000000000442f767000000000454443600000000045f3a8f002"
    ++ "0102010201020102010201020102010201020102010201020102010201020102010201020102010201020102"
    ++ "0102010203040201020102010201020102010201020102010201020102010201020102010201020102010201"
    ++ "0201020102010201020102010201020102010201020102010201020102010201020102010201020102010201"
    ++ "020102010201020102010201020102010201020102010201020102010201020102010201020102010201ffff"
    ++ "ba9e0000ffffc7c00104ffffb9b00008ffffc7c0010cffffc7c001104c4d5400454454004553540045575400"
    ++ "455054000a455354354544542c4d332e322e302c4d31312e312e300a"

/-- The identifiers of the bundled zones with their files. -/
def files : List (String × String) :=
  [("UTC", utc),
   ("GMT", gmt),
   ("Etc/GMT+5", fiveHoursWest),
   ("Asia/Tokyo", tokyo),
   ("Europe/Paris", paris),
   ("America/New_York", newYork)]

/-! ### Lookup -/

/-- The spelling of an identifier and the bytes of its file. -/
def find? (id : String) : Option (String × List UInt8) :=
  (files.find? fun (name, _) => Text.foldString name = Text.foldString id).map fun (name, hex) =>
    (name, ofHex hex.toList)

/-- The spelling of an identifier and its file. -/
def get (id : String) : Except SourceError (String × Tzif.File) :=
  match find? id with
  | none => .error .notFound
  | some (name, bytes) => (Tzif.File.ofBytes bytes).map fun file => (name, file)

def describe (id : String) : Except SourceError Description := do
  let (_, file) ← get id
  file.describe

def source : Source where
  identifiers := .ok (files.map (·.1))
  describe := describe

def catalogue : Catalogue := files.foldl (fun zones (id, _) => zones.insertFrom source id) .empty

end CivilTime.Zone.Bundled
