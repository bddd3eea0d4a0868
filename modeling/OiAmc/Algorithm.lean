import OiAmc.BitField
import OiAmc.CrcRegister
import Mathlib.Data.UInt
import Mathlib.Tactic.IntervalCases

namespace OiAmc.Algorithm

open BitField CrcRegister

def fcs16tab : List UInt16 :=
  [0x0000, 0x1189, 0x2312, 0x329b, 0x4624, 0x57ad, 0x6536, 0x74bf, 0x8c48, 0x9dc1,
   0xaf5a, 0xbed3, 0xca6c, 0xdbe5, 0xe97e, 0xf8f7, 0x1081, 0x0108, 0x3393, 0x221a,
   0x56a5, 0x472c, 0x75b7, 0x643e, 0x9cc9, 0x8d40, 0xbfdb, 0xae52, 0xdaed, 0xcb64,
   0xf9ff, 0xe876, 0x2102, 0x308b, 0x0210, 0x1399, 0x6726, 0x76af, 0x4434, 0x55bd,
   0xad4a, 0xbcc3, 0x8e58, 0x9fd1, 0xeb6e, 0xfae7, 0xc87c, 0xd9f5, 0x3183, 0x200a,
   0x1291, 0x0318, 0x77a7, 0x662e, 0x54b5, 0x453c, 0xbdcb, 0xac42, 0x9ed9, 0x8f50,
   0xfbef, 0xea66, 0xd8fd, 0xc974, 0x4204, 0x538d, 0x6116, 0x709f, 0x0420, 0x15a9,
   0x2732, 0x36bb, 0xce4c, 0xdfc5, 0xed5e, 0xfcd7, 0x8868, 0x99e1, 0xab7a, 0xbaf3,
   0x5285, 0x430c, 0x7197, 0x601e, 0x14a1, 0x0528, 0x37b3, 0x263a, 0xdecd, 0xcf44,
   0xfddf, 0xec56, 0x98e9, 0x8960, 0xbbfb, 0xaa72, 0x6306, 0x728f, 0x4014, 0x519d,
   0x2522, 0x34ab, 0x0630, 0x17b9, 0xef4e, 0xfec7, 0xcc5c, 0xddd5, 0xa96a, 0xb8e3,
   0x8a78, 0x9bf1, 0x7387, 0x620e, 0x5095, 0x411c, 0x35a3, 0x242a, 0x16b1, 0x0738,
   0xffcf, 0xee46, 0xdcdd, 0xcd54, 0xb9eb, 0xa862, 0x9af9, 0x8b70, 0x8408, 0x9581,
   0xa71a, 0xb693, 0xc22c, 0xd3a5, 0xe13e, 0xf0b7, 0x0840, 0x19c9, 0x2b52, 0x3adb,
   0x4e64, 0x5fed, 0x6d76, 0x7cff, 0x9489, 0x8500, 0xb79b, 0xa612, 0xd2ad, 0xc324,
   0xf1bf, 0xe036, 0x18c1, 0x0948, 0x3bd3, 0x2a5a, 0x5ee5, 0x4f6c, 0x7df7, 0x6c7e,
   0xa50a, 0xb483, 0x8618, 0x9791, 0xe32e, 0xf2a7, 0xc03c, 0xd1b5, 0x2942, 0x38cb,
   0x0a50, 0x1bd9, 0x6f66, 0x7eef, 0x4c74, 0x5dfd, 0xb58b, 0xa402, 0x9699, 0x8710,
   0xf3af, 0xe226, 0xd0bd, 0xc134, 0x39c3, 0x284a, 0x1ad1, 0x0b58, 0x7fe7, 0x6e6e,
   0x5cf5, 0x4d7c, 0xc60c, 0xd785, 0xe51e, 0xf497, 0x8028, 0x91a1, 0xa33a, 0xb2b3,
   0x4a44, 0x5bcd, 0x6956, 0x78df, 0x0c60, 0x1de9, 0x2f72, 0x3efb, 0xd68d, 0xc704,
   0xf59f, 0xe416, 0x90a9, 0x8120, 0xb3bb, 0xa232, 0x5ac5, 0x4b4c, 0x79d7, 0x685e,
   0x1ce1, 0x0d68, 0x3ff3, 0x2e7a, 0xe70e, 0xf687, 0xc41c, 0xd595, 0xa12a, 0xb0a3,
   0x8238, 0x93b1, 0x6b46, 0x7acf, 0x4854, 0x59dd, 0x2d62, 0x3ceb, 0x0e70, 0x1ff9,
   0xf78f, 0xe606, 0xd49d, 0xc514, 0xb1ab, 0xa022, 0x92b9, 0x8330, 0x7bc7, 0x6a4e,
   0x58d5, 0x495c, 0x3de3, 0x2c6a, 0x1ef1, 0x0f78]

def fcs16Step (fcs : UInt16) (d : UInt8) : UInt16 :=
  fcs >>> 8 ^^^ fcs16tab.getD ((fcs ^^^ d.toUInt16) &&& 0xff).toNat 0

def fcs16 (data : List UInt8) : UInt16 := data.foldl fcs16Step 0xffff

def fcs32tab : List UInt32 :=
  [0x00000000, 0x77073096, 0xee0e612c, 0x990951ba, 0x076dc419, 0x706af48f, 0xe963a535,
   0x9e6495a3, 0x0edb8832, 0x79dcb8a4, 0xe0d5e91e, 0x97d2d988, 0x09b64c2b, 0x7eb17cbd,
   0xe7b82d07, 0x90bf1d91, 0x1db71064, 0x6ab020f2, 0xf3b97148, 0x84be41de, 0x1adad47d,
   0x6ddde4eb, 0xf4d4b551, 0x83d385c7, 0x136c9856, 0x646ba8c0, 0xfd62f97a, 0x8a65c9ec,
   0x14015c4f, 0x63066cd9, 0xfa0f3d63, 0x8d080df5, 0x3b6e20c8, 0x4c69105e, 0xd56041e4,
   0xa2677172, 0x3c03e4d1, 0x4b04d447, 0xd20d85fd, 0xa50ab56b, 0x35b5a8fa, 0x42b2986c,
   0xdbbbc9d6, 0xacbcf940, 0x32d86ce3, 0x45df5c75, 0xdcd60dcf, 0xabd13d59, 0x26d930ac,
   0x51de003a, 0xc8d75180, 0xbfd06116, 0x21b4f4b5, 0x56b3c423, 0xcfba9599, 0xb8bda50f,
   0x2802b89e, 0x5f058808, 0xc60cd9b2, 0xb10be924, 0x2f6f7c87, 0x58684c11, 0xc1611dab,
   0xb6662d3d, 0x76dc4190, 0x01db7106, 0x98d220bc, 0xefd5102a, 0x71b18589, 0x06b6b51f,
   0x9fbfe4a5, 0xe8b8d433, 0x7807c9a2, 0x0f00f934, 0x9609a88e, 0xe10e9818, 0x7f6a0dbb,
   0x086d3d2d, 0x91646c97, 0xe6635c01, 0x6b6b51f4, 0x1c6c6162, 0x856530d8, 0xf262004e,
   0x6c0695ed, 0x1b01a57b, 0x8208f4c1, 0xf50fc457, 0x65b0d9c6, 0x12b7e950, 0x8bbeb8ea,
   0xfcb9887c, 0x62dd1ddf, 0x15da2d49, 0x8cd37cf3, 0xfbd44c65, 0x4db26158, 0x3ab551ce,
   0xa3bc0074, 0xd4bb30e2, 0x4adfa541, 0x3dd895d7, 0xa4d1c46d, 0xd3d6f4fb, 0x4369e96a,
   0x346ed9fc, 0xad678846, 0xda60b8d0, 0x44042d73, 0x33031de5, 0xaa0a4c5f, 0xdd0d7cc9,
   0x5005713c, 0x270241aa, 0xbe0b1010, 0xc90c2086, 0x5768b525, 0x206f85b3, 0xb966d409,
   0xce61e49f, 0x5edef90e, 0x29d9c998, 0xb0d09822, 0xc7d7a8b4, 0x59b33d17, 0x2eb40d81,
   0xb7bd5c3b, 0xc0ba6cad, 0xedb88320, 0x9abfb3b6, 0x03b6e20c, 0x74b1d29a, 0xead54739,
   0x9dd277af, 0x04db2615, 0x73dc1683, 0xe3630b12, 0x94643b84, 0x0d6d6a3e, 0x7a6a5aa8,
   0xe40ecf0b, 0x9309ff9d, 0x0a00ae27, 0x7d079eb1, 0xf00f9344, 0x8708a3d2, 0x1e01f268,
   0x6906c2fe, 0xf762575d, 0x806567cb, 0x196c3671, 0x6e6b06e7, 0xfed41b76, 0x89d32be0,
   0x10da7a5a, 0x67dd4acc, 0xf9b9df6f, 0x8ebeeff9, 0x17b7be43, 0x60b08ed5, 0xd6d6a3e8,
   0xa1d1937e, 0x38d8c2c4, 0x4fdff252, 0xd1bb67f1, 0xa6bc5767, 0x3fb506dd, 0x48b2364b,
   0xd80d2bda, 0xaf0a1b4c, 0x36034af6, 0x41047a60, 0xdf60efc3, 0xa867df55, 0x316e8eef,
   0x4669be79, 0xcb61b38c, 0xbc66831a, 0x256fd2a0, 0x5268e236, 0xcc0c7795, 0xbb0b4703,
   0x220216b9, 0x5505262f, 0xc5ba3bbe, 0xb2bd0b28, 0x2bb45a92, 0x5cb36a04, 0xc2d7ffa7,
   0xb5d0cf31, 0x2cd99e8b, 0x5bdeae1d, 0x9b64c2b0, 0xec63f226, 0x756aa39c, 0x026d930a,
   0x9c0906a9, 0xeb0e363f, 0x72076785, 0x05005713, 0x95bf4a82, 0xe2b87a14, 0x7bb12bae,
   0x0cb61b38, 0x92d28e9b, 0xe5d5be0d, 0x7cdcefb7, 0x0bdbdf21, 0x86d3d2d4, 0xf1d4e242,
   0x68ddb3f8, 0x1fda836e, 0x81be16cd, 0xf6b9265b, 0x6fb077e1, 0x18b74777, 0x88085ae6,
   0xff0f6a70, 0x66063bca, 0x11010b5c, 0x8f659eff, 0xf862ae69, 0x616bffd3, 0x166ccf45,
   0xa00ae278, 0xd70dd2ee, 0x4e048354, 0x3903b3c2, 0xa7672661, 0xd06016f7, 0x4969474d,
   0x3e6e77db, 0xaed16a4a, 0xd9d65adc, 0x40df0b66, 0x37d83bf0, 0xa9bcae53, 0xdebb9ec5,
   0x47b2cf7f, 0x30b5ffe9, 0xbdbdf21c, 0xcabac28a, 0x53b39330, 0x24b4a3a6, 0xbad03605,
   0xcdd70693, 0x54de5729, 0x23d967bf, 0xb3667a2e, 0xc4614ab8, 0x5d681b02, 0x2a6f2b94,
   0xb40bbe37, 0xc30c8ea1, 0x5a05df1b, 0x2d02ef8d]

def fcs32Step (fcs : UInt32) (d : UInt8) : UInt32 :=
  fcs >>> 8 ^^^ fcs32tab.getD ((fcs ^^^ d.toUInt32) &&& 0xff).toNat 0

def fcs32 (data : List UInt8) : UInt32 := data.foldl fcs32Step 0xffffffff

def crcC : List UInt32 :=
  [0x00000000, 0xF26B8303, 0xE13B70F7, 0x1350F3F4, 0xC79A971F, 0x35F1141C, 0x26A1E7E8,
   0xD4CA64EB, 0x8AD958CF, 0x78B2DBCC, 0x6BE22838, 0x9989AB3B, 0x4D43CFD0, 0xBF284CD3,
   0xAC78BF27, 0x5E133C24, 0x105EC76F, 0xE235446C, 0xF165B798, 0x030E349B, 0xD7C45070,
   0x25AFD373, 0x36FF2087, 0xC494A384, 0x9A879FA0, 0x68EC1CA3, 0x7BBCEF57, 0x89D76C54,
   0x5D1D08BF, 0xAF768BBC, 0xBC267848, 0x4E4DFB4B, 0x20BD8EDE, 0xD2D60DDD, 0xC186FE29,
   0x33ED7D2A, 0xE72719C1, 0x154C9AC2, 0x061C6936, 0xF477EA35, 0xAA64D611, 0x580F5512,
   0x4B5FA6E6, 0xB93425E5, 0x6DFE410E, 0x9F95C20D, 0x8CC531F9, 0x7EAEB2FA, 0x30E349B1,
   0xC288CAB2, 0xD1D83946, 0x23B3BA45, 0xF779DEAE, 0x05125DAD, 0x1642AE59, 0xE4292D5A,
   0xBA3A117E, 0x4851927D, 0x5B016189, 0xA96AE28A, 0x7DA08661, 0x8FCB0562, 0x9C9BF696,
   0x6EF07595, 0x417B1DBC, 0xB3109EBF, 0xA0406D4B, 0x522BEE48, 0x86E18AA3, 0x748A09A0,
   0x67DAFA54, 0x95B17957, 0xCBA24573, 0x39C9C670, 0x2A993584, 0xD8F2B687, 0x0C38D26C,
   0xFE53516F, 0xED03A29B, 0x1F682198, 0x5125DAD3, 0xA34E59D0, 0xB01EAA24, 0x42752927,
   0x96BF4DCC, 0x64D4CECF, 0x77843D3B, 0x85EFBE38, 0xDBFC821C, 0x2997011F, 0x3AC7F2EB,
   0xC8AC71E8, 0x1C661503, 0xEE0D9600, 0xFD5D65F4, 0x0F36E6F7, 0x61C69362, 0x93AD1061,
   0x80FDE395, 0x72966096, 0xA65C047D, 0x5437877E, 0x4767748A, 0xB50CF789, 0xEB1FCBAD,
   0x197448AE, 0x0A24BB5A, 0xF84F3859, 0x2C855CB2, 0xDEEEDFB1, 0xCDBE2C45, 0x3FD5AF46,
   0x7198540D, 0x83F3D70E, 0x90A324FA, 0x62C8A7F9, 0xB602C312, 0x44694011, 0x5739B3E5,
   0xA55230E6, 0xFB410CC2, 0x092A8FC1, 0x1A7A7C35, 0xE811FF36, 0x3CDB9BDD, 0xCEB018DE,
   0xDDE0EB2A, 0x2F8B6829, 0x82F63B78, 0x709DB87B, 0x63CD4B8F, 0x91A6C88C, 0x456CAC67,
   0xB7072F64, 0xA457DC90, 0x563C5F93, 0x082F63B7, 0xFA44E0B4, 0xE9141340, 0x1B7F9043,
   0xCFB5F4A8, 0x3DDE77AB, 0x2E8E845F, 0xDCE5075C, 0x92A8FC17, 0x60C37F14, 0x73938CE0,
   0x81F80FE3, 0x55326B08, 0xA759E80B, 0xB4091BFF, 0x466298FC, 0x1871A4D8, 0xEA1A27DB,
   0xF94AD42F, 0x0B21572C, 0xDFEB33C7, 0x2D80B0C4, 0x3ED04330, 0xCCBBC033, 0xA24BB5A6,
   0x502036A5, 0x4370C551, 0xB11B4652, 0x65D122B9, 0x97BAA1BA, 0x84EA524E, 0x7681D14D,
   0x2892ED69, 0xDAF96E6A, 0xC9A99D9E, 0x3BC21E9D, 0xEF087A76, 0x1D63F975, 0x0E330A81,
   0xFC588982, 0xB21572C9, 0x407EF1CA, 0x532E023E, 0xA145813D, 0x758FE5D6, 0x87E466D5,
   0x94B49521, 0x66DF1622, 0x38CC2A06, 0xCAA7A905, 0xD9F75AF1, 0x2B9CD9F2, 0xFF56BD19,
   0x0D3D3E1A, 0x1E6DCDEE, 0xEC064EED, 0xC38D26C4, 0x31E6A5C7, 0x22B65633, 0xD0DDD530,
   0x0417B1DB, 0xF67C32D8, 0xE52CC12C, 0x1747422F, 0x49547E0B, 0xBB3FFD08, 0xA86F0EFC,
   0x5A048DFF, 0x8ECEE914, 0x7CA56A17, 0x6FF599E3, 0x9D9E1AE0, 0xD3D3E1AB, 0x21B862A8,
   0x32E8915C, 0xC083125F, 0x144976B4, 0xE622F5B7, 0xF5720643, 0x07198540, 0x590AB964,
   0xAB613A67, 0xB831C993, 0x4A5A4A90, 0x9E902E7B, 0x6CFBAD78, 0x7FAB5E8C, 0x8DC0DD8F,
   0xE330A81A, 0x115B2B19, 0x020BD8ED, 0xF0605BEE, 0x24AA3F05, 0xD6C1BC06, 0xC5914FF2,
   0x37FACCF1, 0x69E9F0D5, 0x9B8273D6, 0x88D28022, 0x7AB90321, 0xAE7367CA, 0x5C18E4C9,
   0x4F48173D, 0xBD23943E, 0xF36E6F75, 0x0105EC76, 0x12551F82, 0xE03E9C81, 0x34F4F86A,
   0xC69F7B69, 0xD5CF889D, 0x27A40B9E, 0x79B737BA, 0x8BDCB4B9, 0x988C474D, 0x6AE7C44E,
   0xBE2DA0A5, 0x4C4623A6, 0x5F16D052, 0xAD7D5351]

def crc32cStep (c : UInt32) (d : UInt8) : UInt32 :=
  c >>> 8 ^^^ crcC.getD ((c ^^^ d.toUInt32) &&& 0xFF).toNat 0

def swapOctets (crc32 : UInt32) : UInt32 :=
  let byte0 := (crc32 &&& 0xff).toUInt8
  let byte1 := ((crc32 >>> 8) &&& 0xff).toUInt8
  let byte2 := ((crc32 >>> 16) &&& 0xff).toUInt8
  let byte3 := ((crc32 >>> 24) &&& 0xff).toUInt8
  let (byte0, byte3) := (byte3, byte0)
  let (byte1, byte2) := (byte2, byte1)
  byte3.toUInt32 <<< 24 ||| byte2.toUInt32 <<< 16 ||| byte1.toUInt32 <<< 8 ||| byte0.toUInt32

def crc32c (data : List UInt8) : UInt32 := swapOctets (~~~data.foldl crc32cStep 0xffffffff)

/-- The bits of a message as a line carries them, the lowest of an octet first. -/
def messageBits (data : List UInt8) : List Bool := data.flatMap fun d => lsbBits 8 d.toBitVec

/-- The octets of a checksum, the least significant first. -/
def octets16 (fcs : UInt16) : List UInt8 := [fcs.toUInt8, (fcs >>> 8).toUInt8]

def octets32 (fcs : UInt32) : List UInt8 :=
  [fcs.toUInt8, (fcs >>> 8).toUInt8, (fcs >>> 16).toUInt8, (fcs >>> 24).toUInt8]

theorem fcs16tab_eq : fcs16tab.map UInt16.toBitVec = octetTable (reflected 0x8408#16) := by
  decide +kernel

theorem fcs32tab_eq : fcs32tab.map UInt32.toBitVec = octetTable (reflected 0xEDB88320#32) := by
  decide +kernel

theorem crcC_eq : crcC.map UInt32.toBitVec = octetTable (reflected 0x82F63B78#32) := by
  decide +kernel

theorem foldl_run {α : Type} {w : Nat} {R : Register w} {f : α → BitVec w} {step : α → UInt8 → α}
    (hstep : ∀ c d, f (step c d) = R.run (f c) (lsbBits 8 d.toBitVec)) (data : List UInt8) (c : α) :
    f (data.foldl step c) = R.run (f c) (messageBits data) := by
  induction data generalizing c with
  | nil => rfl
  | cons d data ih =>
      have hcons : messageBits (d :: data) = lsbBits 8 d.toBitVec ++ messageBits data := List.flatMap_cons
      rw [List.foldl_cons, ih, hstep, hcons, run_append]

theorem fcs16Step_eq (c : UInt16) (d : UInt8) : (fcs16Step c d).toBitVec =
    (reflected 0x8408#16).run c.toBitVec (lsbBits 8 d.toBitVec) :=
  table_run _ c.toBitVec (by decide) (fun _ hi => octetTable_getD _ _ 0 fcs16tab_eq hi) d.toBitVec

theorem fcs32Step_eq (c : UInt32) (d : UInt8) : (fcs32Step c d).toBitVec =
    (reflected 0xEDB88320#32).run c.toBitVec (lsbBits 8 d.toBitVec) :=
  table_run _ c.toBitVec (by decide) (fun _ hi => octetTable_getD _ _ 0 fcs32tab_eq hi) d.toBitVec

theorem crc32cStep_eq (c : UInt32) (d : UInt8) : (crc32cStep c d).toBitVec =
    (reflected 0x82F63B78#32).run c.toBitVec (lsbBits 8 d.toBitVec) :=
  table_run _ c.toBitVec (by decide) (fun _ hi => octetTable_getD _ _ 0 crcC_eq hi) d.toBitVec

theorem fcs16_run (data : List UInt8) :
    (fcs16 data).toBitVec = (reflected 0x8408#16).run 0xffff#16 (messageBits data) :=
  foldl_run fcs16Step_eq data 0xffff

theorem fcs32_run (data : List UInt8) :
    (fcs32 data).toBitVec = (reflected 0xEDB88320#32).run 0xffffffff#32 (messageBits data) :=
  foldl_run fcs32Step_eq data 0xffffffff

theorem messageBits_append (data data' : List UInt8) :
    messageBits (data ++ data') = messageBits data ++ messageBits data' := List.flatMap_append

theorem messageBits_octets16 (fcs : UInt16) : messageBits (octets16 fcs) = lsbBits 16 fcs.toBitVec := by
  have hsplit := @lsbBits_add 8 16 8 fcs.toBitVec
  rw [← @lsbBits_setWidth 8 16 8 fcs.toBitVec le_rfl,
    ← @lsbBits_setWidth 8 16 8 (fcs.toBitVec >>> 8) le_rfl] at hsplit
  exact hsplit.symm

theorem messageBits_octets32 (fcs : UInt32) : messageBits (octets32 fcs) = lsbBits 32 fcs.toBitVec := by
  have hoctet (x : BitVec 32) (n : Nat) : lsbBits (8 + n) x = lsbBits 8 (x.setWidth 8) ++ lsbBits n (x >>> 8) := by
    rw [lsbBits_add, lsbBits_setWidth x le_rfl]
  have hsplit := hoctet fcs.toBitVec 24
  rw [hoctet _ 16, hoctet _ 8, ← BitVec.shiftRight_add, ← BitVec.shiftRight_add,
    ← @lsbBits_setWidth 8 32 8 (fcs.toBitVec >>> _) le_rfl] at hsplit
  exact hsplit.symm

theorem fcs16_residue (data : List UInt8) : fcs16 (data ++ octets16 (~~~fcs16 data)) = 0xf0b8 := by
  apply UInt16.eq_of_toBitVec_eq
  rw [fcs16_run, messageBits_append, run_append, ← fcs16_run, messageBits_octets16, UInt16.toBitVec_not,
    complement_run]
  decide +kernel

theorem fcs32_residue (data : List UInt8) : fcs32 (data ++ octets32 (~~~fcs32 data)) = 0xdebb20e3 := by
  apply UInt32.eq_of_toBitVec_eq
  rw [fcs32_run, messageBits_append, run_append, ← fcs32_run, messageBits_octets32, UInt32.toBitVec_not,
    complement_run]
  decide +kernel

theorem swapOctets_octet (c : UInt32) : ∀ i < 4,
    (swapOctets c).toNat / 256 ^ i % 256 = c.toNat / 256 ^ (3 - i) % 256 := by
  intro i hi
  have hbyte (x : UInt32) : (x &&& 0xff).toUInt8.toNat = x.toNat % 256 := by
    rw [UInt32.toNat_toUInt8, UInt32.toNat_and, show (0xff : UInt32).toNat = 2 ^ 8 - 1 from rfl,
      Nat.and_two_pow_sub_one_eq_mod, Nat.mod_mod]
  rw [swapOctets]
  simp only [octets_toNat, hbyte, UInt32.toNat_shiftRight, UInt32.reduceToNat, Nat.reduceMod,
    Nat.shiftRight_eq_div_pow, Nat.reducePow]
  have h0 := Nat.mod_lt c.toNat (show 0 < 256 by decide)
  have h1 := Nat.mod_lt (c.toNat / 256) (show 0 < 256 by decide)
  have h2 := Nat.mod_lt (c.toNat / 65536) (show 0 < 256 by decide)
  have h3 := Nat.mod_lt (c.toNat / 16777216) (show 0 < 256 by decide)
  interval_cases i
  all_goals
    simp only [Nat.reduceSub, Nat.reducePow, Nat.div_one]
    generalize c.toNat % 256 = b0 at *
    generalize c.toNat / 256 % 256 = b1 at *
    generalize c.toNat / 65536 % 256 = b2 at *
    generalize c.toNat / 16777216 % 256 = b3 at *
    omega

/-- The checksums are those of the registers that take a message bit by bit. -/
theorem checksums_bit_serial (data : List UInt8) :
    (fcs16 data).toBitVec = (reflected 0x8408#16).run 0xffff#16 (messageBits data) ∧
    (fcs32 data).toBitVec = (reflected 0xEDB88320#32).run 0xffffffff#32 (messageBits data) ∧
    (∀ i < 4, (crc32c data).toNat / 256 ^ i % 256 =
      (~~~(reflected 0x82F63B78#32).run 0xffffffff#32 (messageBits data)).toNat / 256 ^ (3 - i) % 256) ∧
    fcs16 (data ++ octets16 (~~~fcs16 data)) = 0xf0b8 ∧
    fcs32 (data ++ octets32 (~~~fcs32 data)) = 0xdebb20e3 := by
  refine ⟨fcs16_run data, fcs32_run data, fun i hi => ?_, fcs16_residue data, fcs32_residue data⟩
  have hrun : (data.foldl crc32cStep 0xffffffff).toBitVec =
      (reflected 0x82F63B78#32).run 0xffffffff#32 (messageBits data) := foldl_run crc32cStep_eq data 0xffffffff
  rw [crc32c, swapOctets_octet _ i hi, ← hrun, ← UInt32.toBitVec_not, UInt32.toNat_toBitVec]

end OiAmc.Algorithm
