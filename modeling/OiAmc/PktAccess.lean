import OiAmc.Pkt

namespace OiAmc.PktAccess

open Function ByteOrder Pkt

variable {host : Endian} {ph : Octets}

inductive Getter
  | sync | sc | is2mChannel | flen | len | plen | dlen | type | subtype | protocol
  | device | channel | tsS | tsNs

/-- The calls that set something in a packet header. -/
inductive Setter
  | sync | set2mChannel | clr2mChannel | clrFlen
  | flen (n : Int)
  | rawLen (len : UInt16)
  | plen (n : Int)
  | dlen (n : Int)
  | type (t : UInt8)
  | subtype (st : UInt8)
  | protocol (p : UInt8)
  | device (dev : UInt16)
  | channel (c : UInt16)
  | tsS (s : UInt32)
  | tsNs (ns : UInt32)
  | ts (s ns : UInt32)

def Getter.normal (host : Endian) (ph : Octets) : Getter → Int
  | .sync => (pkthdrGetSync host ph).toNat
  | .sc => (pkthdrGetSc ph).toNat
  | .is2mChannel => pkthdrScIs2mChannel ph
  | .flen => pkthdrScGetFlen ph
  | .len => pkthdrGetLen host ph
  | .plen => pkthdrGetPlen host ph
  | .dlen => pkthdrGetDlen host ph
  | .type => (pkthdrGetType ph).toNat
  | .subtype => (pkthdrGetSubtype ph).toNat
  | .protocol => (pkthdrGetProtocol ph).toNat
  | .device => (pkthdrGetDevice host ph).toNat
  | .channel => (pkthdrGetChannel host ph).toNat
  | .tsS => (pkthdrGetTsS host ph).toNat
  | .tsNs => (pkthdrGetTsNs host ph).toNat

def Getter.slow (ph : Octets) : Getter → Int
  | .sync => (pkthdrSlowGetSync ph).toNat
  | .sc => (pkthdrSlowGetSc ph).toNat
  | .is2mChannel => pkthdrSlowScIs2mChannel ph
  | .flen => pkthdrSlowScGetFlen ph
  | .len => pkthdrSlowGetLen ph
  | .plen => pkthdrSlowGetPlen ph
  | .dlen => pkthdrSlowGetDlen ph
  | .type => (pkthdrSlowGetType ph).toNat
  | .subtype => (pkthdrSlowGetSubtype ph).toNat
  | .protocol => (pkthdrSlowGetProtocol ph).toNat
  | .device => (pkthdrSlowGetDevice ph).toNat
  | .channel => (pkthdrSlowGetChannel ph).toNat
  | .tsS => (pkthdrSlowGetTsS ph).toNat
  | .tsNs => (pkthdrSlowGetTsNs ph).toNat

def Setter.normal (host : Endian) (ph : Octets) : Setter → Octets
  | .sync => pkthdrSetSync host ph
  | .set2mChannel => pkthdrScSet2mChannel ph
  | .clr2mChannel => pkthdrScClr2mChannel ph
  | .clrFlen => pkthdrScClrFlen ph
  | .flen n => pkthdrScSetFlen ph n
  | .rawLen len => pkthdrRawSetLen host ph len
  | .plen n => pkthdrSetPlen host ph n
  | .dlen n => pkthdrSetDlen host ph n
  | .type t => pkthdrSetType ph t
  | .subtype st => pkthdrSetSubtype ph st
  | .protocol p => pkthdrSetProtocol ph p
  | .device dev => pkthdrSetDevice host ph dev
  | .channel c => pkthdrSetChannel host ph c
  | .tsS s => pkthdrSetTsS host ph s
  | .tsNs ns => pkthdrSetTsNs host ph ns
  | .ts s ns => pkthdrSetTs host ph s ns

def Setter.slow (ph : Octets) : Setter → Octets
  | .sync => pkthdrSlowSetSync ph
  | .set2mChannel => pkthdrSlowScSet2mChannel ph
  | .clr2mChannel => pkthdrSlowScClr2mChannel ph
  | .clrFlen => pkthdrSlowScClrFlen ph
  | .flen n => pkthdrSlowScSetFlen ph n
  | .rawLen len => pkthdrRawSlowSetLen ph len
  | .plen n => pkthdrSlowSetPlen ph n
  | .dlen n => pkthdrSlowSetDlen ph n
  | .type t => pkthdrSlowSetType ph t
  | .subtype st => pkthdrSlowSetSubtype ph st
  | .protocol p => pkthdrSlowSetProtocol ph p
  | .device dev => pkthdrSlowSetDevice ph dev
  | .channel c => pkthdrSlowSetChannel ph c
  | .tsS s => pkthdrSlowSetTsS ph s
  | .tsNs ns => pkthdrSlowSetTsNs ph ns
  | .ts s ns => pkthdrSlowSetTs ph s ns

def octetsIn (a n i : Nat) : UInt8 := if a ≤ i ∧ i < a + n then 0xff else 0

def scBits (mask : UInt8) (i : Nat) : UInt8 := if i = 7 then mask else 0

def Getter.bits (i : Nat) : Getter → UInt8
  | .sync => octetsIn 0 2 i
  | .sc => octetsIn 7 1 i
  | .is2mChannel => scBits 0x04 i
  | .flen => scBits 0x03 i
  | .len => octetsIn 2 2 i
  | .plen => octetsIn 2 2 i ||| scBits 0x03 i
  | .dlen => octetsIn 2 2 i ||| scBits 0x03 i
  | .type => octetsIn 4 1 i
  | .subtype => octetsIn 5 1 i
  | .protocol => octetsIn 6 1 i
  | .device => octetsIn 8 2 i
  | .channel => octetsIn 10 2 i
  | .tsS => octetsIn 12 4 i
  | .tsNs => octetsIn 16 4 i

def Setter.bits (i : Nat) : Setter → UInt8
  | .sync => octetsIn 0 2 i
  | .set2mChannel => scBits 0x04 i
  | .clr2mChannel => scBits 0x04 i
  | .clrFlen => scBits 0x03 i
  | .flen _ => scBits 0x03 i
  | .rawLen _ => octetsIn 2 2 i
  | .plen _ => octetsIn 2 2 i ||| scBits 0x03 i
  | .dlen _ => octetsIn 2 2 i ||| scBits 0x03 i
  | .type _ => octetsIn 4 1 i
  | .subtype _ => octetsIn 5 1 i
  | .protocol _ => octetsIn 6 1 i
  | .device _ => octetsIn 8 2 i
  | .channel _ => octetsIn 10 2 i
  | .tsS _ => octetsIn 12 4 i
  | .tsNs _ => octetsIn 16 4 i
  | .ts _ _ => octetsIn 12 8 i

/-- The field a getter reads is none of those a setter sets. -/
def Apart (s : Setter) (g : Getter) : Prop := ∀ i, s.bits i &&& g.bits i = 0

def Setter.values : Setter → List (Getter × Int)
  | .sync => [(.sync, 0x7e5a)]
  | .set2mChannel => [(.is2mChannel, 1)]
  | .clr2mChannel => [(.is2mChannel, 0)]
  | .clrFlen => [(.flen, 0)]
  | .flen n => if 0 ≤ n ∧ n ≤ 3 then [(.flen, n)] else []
  | .rawLen len => [(.len, len.toNat * 4)]
  | .plen n => if 20 ≤ n then [(.plen, n)] else []
  -- above 2147483627 the packet length is no int, and nothing is set
  | .dlen n => if 0 ≤ n ∧ n ≤ 2147483627 then [(.dlen, n)] else []
  | .type t => [(.type, t.toNat)]
  | .subtype st => [(.subtype, st.toNat)]
  | .protocol p => [(.protocol, p.toNat)]
  | .device dev => [(.device, dev.toNat)]
  | .channel c => [(.channel, c.toNat)]
  | .tsS s => [(.tsS, s.toNat)]
  | .tsNs ns => [(.tsNs, ns.toNat)]
  | .ts s ns => [(.tsS, s.toNat), (.tsNs, ns.toNat)]

/-- The two families of accessors, for one header, one setter call and one buffer. -/
structure Agree (host : Endian) (ph : Octets) (s : Setter) (buf : Option Octets) (size : Int) :
    Prop where
  getters : ∀ g : Getter, g.slow ph = g.normal host ph
  setters : s.slow ph = s.normal host ph
  readBack : ∀ gv ∈ s.values,
    gv.1.normal host (s.normal host ph) = gv.2 ∧ gv.1.slow (s.slow ph) = gv.2
  others : ∀ g, Apart s g → g.normal host (s.normal host ph) = g.normal host ph ∧
    g.slow (s.slow ph) = g.slow ph
  verify : pktVerifySlow buf size = pktVerify host buf size

/-- No stamp needs its upper octets, and the length fits the number of words. -/
def Setter.Fits : Setter → Prop
  | .plen n => n ≤ 262140
  | .dlen n => n ≤ 262120 ∨ 2147483627 < n
  | .tsS s => s.toNat < 65536
  | .tsNs ns => ns.toNat < 65536
  | .ts s ns => s.toNat < 65536 ∧ ns.toNat < 65536
  | _ => True

theorem Setter.slow_eq (host : Endian) (ph : Octets) (s : Setter) : s.slow ph = s.normal host ph := by
  have hlen (p : Octets) (len : UInt16) : pkthdrRawSlowSetLen p len = pkthdrRawSetLen host p len := by
    rw [pkthdrRawSlowSetLen, slowSet16_eq, pkthdrRawSetLen, store16_swap16]
  have hplen (n : Int) : pkthdrSlowSetPlen ph n = pkthdrSetPlen host ph n := by
    rw [pkthdrSlowSetPlen, hlen]
    rfl
  have htsS (p : Octets) (v : UInt32) : pkthdrSlowSetTsS p v = pkthdrSetTsS host p v := by
    rw [pkthdrSlowSetTsS, slowSetStamp_eq, pkthdrSetTsS, store32_swap32]
  have htsNs (p : Octets) (v : UInt32) : pkthdrSlowSetTsNs p v = pkthdrSetTsNs host p v := by
    rw [pkthdrSlowSetTsNs, slowSetStamp_eq, pkthdrSetTsNs, store32_swap32]
  cases s with
  | sync =>
      rw [Setter.slow, Setter.normal, pkthdrSetSync, store16_swap16]
      rfl
  | rawLen len => exact hlen ph len
  | plen n => exact hplen n
  | dlen n => exact hplen _
  | device dev =>
      rw [Setter.slow, Setter.normal, pkthdrSlowSetDevice, slowSet16_eq, pkthdrSetDevice, store16_swap16]
  | channel c =>
      rw [Setter.slow, Setter.normal, pkthdrSlowSetChannel, slowSet16_eq, pkthdrSetChannel, store16_swap16]
  | tsS v => exact htsS ph v
  | tsNs v => exact htsNs ph v
  | ts s ns =>
      rw [Setter.slow, Setter.normal, pkthdrSlowSetTs, htsS, htsNs]
      rfl
  | set2mChannel | clr2mChannel | clrFlen | flen n | type t | subtype t | protocol t => rfl

def Getter.Plain : Getter → Prop
  | .tsS | .tsNs => False
  | _ => True

theorem Getter.slow_eq (host : Endian) (ph : Octets) (g : Getter) (hg : g.Plain) :
    g.slow ph = g.normal host ph := by
  cases g with
  | tsS => exact hg.elim
  | tsNs => exact hg.elim
  | sync =>
      rw [Getter.slow, Getter.normal, pkthdrSlowGetSync, slowGet16_eq, pkthdrGetSync, swap16_load16]
  | device =>
      rw [Getter.slow, Getter.normal, pkthdrSlowGetDevice, slowGet16_eq, pkthdrGetDevice, swap16_load16]
  | channel =>
      rw [Getter.slow, Getter.normal, pkthdrSlowGetChannel, slowGet16_eq, pkthdrGetChannel,
        swap16_load16]
  | len =>
      rw [Getter.slow, Getter.normal, pkthdrSlowGetLen, rawSlowGetLen_eq host]
      rfl
  | plen => exact slowGetPlen_eq host ph
  | dlen =>
      rw [Getter.slow, Getter.normal, pkthdrSlowGetDlen, slowGetPlen_eq host]
      rfl
  | sc | is2mChannel | flen | type | subtype | protocol => rfl

theorem slowGetTsS_eq_iff : Getter.slow ph .tsS = Getter.normal host ph .tsS ↔
    (pkthdrGetTsS host ph).toNat < 65536 := by
  rw [Getter.slow, Getter.normal, pkthdrGetTsS, swap32_load32, ← slowGetStamp_eq_iff, Nat.cast_inj,
    UInt32.toNat_inj]
  rfl

theorem slowGetTsNs_eq_iff : Getter.slow ph .tsNs = Getter.normal host ph .tsNs ↔
    (pkthdrGetTsNs host ph).toNat < 65536 := by
  rw [Getter.slow, Getter.normal, pkthdrGetTsNs, swap32_load32, ← slowGetStamp_eq_iff, Nat.cast_inj,
    UInt32.toNat_inj]
  rfl

theorem octet_of_bits {p q : Octets} {a n i : Nat} (h : ∀ i, p i &&& octetsIn a n i = q i &&& octetsIn a n i)
    (hi : a ≤ i ∧ i < a + n) : p i = q i := by
  have hpq := h i
  rw [octetsIn, if_pos hi] at hpq
  exact (UInt8.and_neg_one).symm.trans (hpq.trans UInt8.and_neg_one)

theorem Getter.normal_congr {p q : Octets} (g : Getter) (h : ∀ i, p i &&& g.bits i = q i &&& g.bits i) :
    g.normal host p = g.normal host q := by
  have h16 {a : Nat} (h : ∀ i, p i &&& octetsIn a 2 i = q i &&& octetsIn a 2 i) :
      swap16 host (load16 host p a) = swap16 host (load16 host q a) := by
    rw [swap16_load16, swap16_load16]
    exact be16_congr a (octet_of_bits h (by omega)) (octet_of_bits h (by omega))
  have h32 {a : Nat} (h : ∀ i, p i &&& octetsIn a 4 i = q i &&& octetsIn a 4 i) :
      swap32 host (load32 host p a) = swap32 host (load32 host q a) := by
    rw [swap32_load32, swap32_load32]
    exact be32_congr a fun i hi => octet_of_bits h (by omega)
  have hflen (h : ∀ i, p i &&& scBits 0x03 i = q i &&& scBits 0x03 i) :
      pkthdrScGetFlen p = pkthdrScGetFlen q :=
    congrArg (fun x : UInt8 => (x.toNat : Int)) (h 7)
  have hplen (h : ∀ i, p i &&& (octetsIn 2 2 i ||| scBits 0x03 i) = q i &&& (octetsIn 2 2 i ||| scBits 0x03 i)) :
      pkthdrGetPlen host p = pkthdrGetPlen host q := by
    rw [pkthdrGetPlen, pkthdrGetLen, pkthdrRawGetLen, h16 fun i => and_eq_of_or_left (h i),
      hflen fun i => and_eq_of_or_right (h i)]
    rfl
  cases g with
  | sync => exact congrArg (fun x : UInt16 => (x.toNat : Int)) (h16 h)
  | device => exact congrArg (fun x : UInt16 => (x.toNat : Int)) (h16 h)
  | channel => exact congrArg (fun x : UInt16 => (x.toNat : Int)) (h16 h)
  | len => exact congrArg (fun x : UInt16 => (x.toNat : Int) * 4) (h16 h)
  | tsS => exact congrArg (fun x : UInt32 => (x.toNat : Int)) (h32 h)
  | tsNs => exact congrArg (fun x : UInt32 => (x.toNat : Int)) (h32 h)
  | flen => exact hflen h
  | plen => exact hplen h
  | dlen => exact congrArg (· - hdrSize) (hplen h)
  | is2mChannel =>
      have h7 : p 7 &&& PKT_2M_CHANNEL = q 7 &&& PKT_2M_CHANNEL := h 7
      rw [Getter.normal, pkthdrScIs2mChannel, h7]
      rfl
  | sc => exact congrArg (fun x : UInt8 => (x.toNat : Int)) (octet_of_bits h (by omega))
  | type => exact congrArg (fun x : UInt8 => (x.toNat : Int)) (octet_of_bits h (by omega))
  | subtype => exact congrArg (fun x : UInt8 => (x.toNat : Int)) (octet_of_bits h (by omega))
  | protocol => exact congrArg (fun x : UInt8 => (x.toNat : Int)) (octet_of_bits h (by omega))

theorem Getter.slow_congr {p q : Octets} (g : Getter) (h : ∀ i, p i &&& g.bits i = q i &&& g.bits i) :
    g.slow p = g.slow q := by
  have hstamp {a : Nat} (h : ∀ i, p i &&& octetsIn a 4 i = q i &&& octetsIn a 4 i) :
      slowGetStamp p a = slowGetStamp q a := by
    rw [slowGetStamp, octet_of_bits (i := a) h (by omega), octet_of_bits (i := a + 1) h (by omega),
      octet_of_bits (i := a + 2) h (by omega), octet_of_bits (i := a + 3) h (by omega), slowGetStamp]
  have hplain (hg : g.Plain) : g.slow p = g.slow q := by
    rw [Getter.slow_eq .big p g hg, Getter.slow_eq .big q g hg, Getter.normal_congr g h]
  cases g with
  | tsS => exact congrArg (fun x : UInt32 => (x.toNat : Int)) (hstamp h)
  | tsNs => exact congrArg (fun x : UInt32 => (x.toNat : Int)) (hstamp h)
  | _ => exact hplain trivial

theorem frame_of_outside {p q : Octets} {a n : Nat} (h : ∀ i, i < a ∨ a + n ≤ i → q i = p i) (i : Nat) :
    q i &&& ~~~octetsIn a n i = p i &&& ~~~octetsIn a n i := by
  by_cases hi : a ≤ i ∧ i < a + n
  · rw [octetsIn, if_pos hi]
    exact (UInt8.and_zero).trans (UInt8.and_zero).symm
  · rw [h i (by omega)]

theorem frame_update (ph : Octets) (a : Nat) (v : UInt8) (i : Nat) :
    update ph a v i &&& ~~~octetsIn a 1 i = ph i &&& ~~~octetsIn a 1 i :=
  frame_of_outside (fun _ hi => update_of_ne (by omega) _ _) i

theorem frame_sc {x m : UInt8} (h : x &&& ~~~m = ph 7 &&& ~~~m) (i : Nat) :
    update ph 7 x i &&& ~~~scBits m i = ph i &&& ~~~scBits m i := by
  by_cases hi : i = 7
  · rw [hi, update_self, scBits, if_pos rfl, h]
  · rw [update_of_ne hi]

theorem Setter.frame (s : Setter) (i : Nat) :
    s.normal host ph i &&& ~~~s.bits i = ph i &&& ~~~s.bits i := by
  have h16 (p : Octets) (a : Nat) (v : UInt16) (i : Nat) :
      store16 host p a (swap16 host v) i &&& ~~~octetsIn a 2 i = p i &&& ~~~octetsIn a 2 i := by
    rw [store16_swap16]
    exact frame_of_outside (fun j hj => putBe16_of_outside p a v hj) i
  have h32 (p : Octets) (a : Nat) (v : UInt32) {i : Nat} (hi : i < a ∨ a + 4 ≤ i) :
      store32 host p a (swap32 host v) i = p i := by
    rw [store32_swap32, putBe32_of_outside p a v hi]
  have hflen (n : Int) (i : Nat) :
      pkthdrScSetFlen ph n i &&& ~~~scBits 0x03 i = ph i &&& ~~~scBits 0x03 i := by
    by_cases hi : i = 7
    · rw [hi, scSetFlen_seven]
      exact put_and_not_mask _ _ _
    · rw [pkthdrScSetFlen, update_of_ne hi, pkthdrScClrFlen, update_of_ne hi]
  have hplen (n : Int) (i : Nat) : pkthdrSetPlen host ph n i &&& ~~~(octetsIn 2 2 i ||| scBits 0x03 i) =
      ph i &&& ~~~(octetsIn 2 2 i ||| scBits 0x03 i) := by
    rw [pkthdrSetPlen]
    split
    · refine (and_not_or (h16 _ 2 _ i)).trans ?_
      rw [UInt8.or_comm]
      exact and_not_or (hflen _ i)
    · rfl
  cases s with
  | sync => exact h16 ph 0 _ i
  | rawLen len => exact h16 ph 2 len i
  | device dev => exact h16 ph 8 dev i
  | channel c => exact h16 ph 10 c i
  | plen n => exact hplen n i
  | dlen n => exact hplen _ i
  | tsS v => exact frame_of_outside (fun _ hj => h32 ph 12 v hj) i
  | tsNs v => exact frame_of_outside (fun _ hj => h32 ph 16 v hj) i
  | ts s ns =>
      refine frame_of_outside (fun j hj => ?_) i
      exact (h32 _ 16 ns (by omega)).trans (h32 ph 12 s (by omega))
  | set2mChannel => exact frame_sc (or_and_not_mask _ _) i
  | clr2mChannel => exact frame_sc (not_mask_and_not_mask _ _) i
  | clrFlen =>
      have h : ph 7 &&& 0xFC &&& ~~~0x03 = ph 7 &&& ~~~0x03 := not_mask_and_not_mask (ph 7) 0x03
      exact frame_sc h i
  | flen n => exact hflen n i
  | type t => exact frame_update ph 4 t i
  | subtype t => exact frame_update ph 5 t i
  | protocol t => exact frame_update ph 6 t i

theorem Setter.others (s : Setter) (g : Getter) (h : Apart s g) :
    g.normal host (s.normal host ph) = g.normal host ph ∧ g.slow (s.slow ph) = g.slow ph := by
  have hbits (i : Nat) : s.normal host ph i &&& g.bits i = ph i &&& g.bits i :=
    and_eq_of_apart (h i) (s.frame i)
  rw [Setter.slow_eq host]
  exact ⟨g.normal_congr hbits, g.slow_congr hbits⟩

theorem readBack_one {s : Setter} {v : Int} (g : Getter) (hg : g.Plain) :
    (∀ gv ∈ [(g, v)], gv.1.normal host (s.normal host ph) = gv.2 ∧ gv.1.slow (s.slow ph) = gv.2) ↔
      g.normal host (s.normal host ph) = v := by
  rw [List.forall_mem_singleton, Setter.slow_eq host, Getter.slow_eq host _ g hg, and_self]

theorem getTsS_setTsS (ph : Octets) (v : UInt32) : pkthdrGetTsS host (pkthdrSetTsS host ph v) = v := by
  rw [pkthdrGetTsS, swap32_load32, pkthdrSetTsS, store32_swap32, be32_putBe32]

theorem getTsNs_setTsNs (ph : Octets) (v : UInt32) :
    pkthdrGetTsNs host (pkthdrSetTsNs host ph v) = v := by
  rw [pkthdrGetTsNs, swap32_load32, pkthdrSetTsNs, store32_swap32, be32_putBe32]

theorem getTsS_setTs (ph : Octets) (v ns : UInt32) : pkthdrGetTsS host (pkthdrSetTs host ph v ns) = v := by
  have hkeep (i : Nat) (hi : i < 4) : pkthdrSetTs host ph v ns (12 + i) = pkthdrSetTsS host ph v (12 + i) := by
    rw [pkthdrSetTs, pkthdrSetTsNs, store32_swap32, putBe32_of_outside _ _ _ (by omega)]
  rw [pkthdrGetTsS, swap32_load32, be32_congr 12 hkeep, pkthdrSetTsS, store32_swap32, be32_putBe32]

theorem readBoth_tsS {s : Setter} {v : UInt32} (h : pkthdrGetTsS host (s.normal host ph) = v) :
    (Getter.normal host (s.normal host ph) .tsS = v.toNat ∧ Getter.slow (s.slow ph) .tsS = v.toNat) ↔
      v.toNat < 65536 := by
  have hn : Getter.normal host (s.normal host ph) .tsS = v.toNat := by rw [Getter.normal, h]
  rw [Setter.slow_eq host, and_iff_right hn, ← hn, slowGetTsS_eq_iff, h]

theorem readBoth_tsNs {s : Setter} {v : UInt32} (h : pkthdrGetTsNs host (s.normal host ph) = v) :
    (Getter.normal host (s.normal host ph) .tsNs = v.toNat ∧ Getter.slow (s.slow ph) .tsNs = v.toNat) ↔
      v.toNat < 65536 := by
  have hn : Getter.normal host (s.normal host ph) .tsNs = v.toNat := by rw [Getter.normal, h]
  rw [Setter.slow_eq host, and_iff_right hn, ← hn, slowGetTsNs_eq_iff, h]

theorem getter16_setter16 (host : Endian) (ph : Octets) (a : Nat) (v : UInt16) :
    swap16 host (load16 host (store16 host ph a (swap16 host v)) a) = v := by
  rw [swap16_load16, store16_swap16, be16_putBe16]

theorem Setter.readBack_iff (s : Setter) : (∀ gv ∈ s.values,
    gv.1.normal host (s.normal host ph) = gv.2 ∧ gv.1.slow (s.slow ph) = gv.2) ↔ s.Fits := by
  cases s with
  | sync =>
      refine (readBack_one .sync trivial).trans (iff_of_true ?_ trivial)
      exact congrArg (fun x : UInt16 => (x.toNat : Int)) (getter16_setter16 host ph 0 _)
  | rawLen len =>
      refine (readBack_one .len trivial).trans (iff_of_true ?_ trivial)
      exact congrArg (fun x : UInt16 => (x.toNat : Int) * 4) (getter16_setter16 host ph 2 _)
  | device dev =>
      refine (readBack_one .device trivial).trans (iff_of_true ?_ trivial)
      exact congrArg (fun x : UInt16 => (x.toNat : Int)) (getter16_setter16 host ph 8 _)
  | channel c =>
      refine (readBack_one .channel trivial).trans (iff_of_true ?_ trivial)
      exact congrArg (fun x : UInt16 => (x.toNat : Int)) (getter16_setter16 host ph 10 _)
  | set2mChannel =>
      refine (readBack_one .is2mChannel trivial).trans (iff_of_true ?_ trivial)
      rw [Getter.normal, pkthdrScIs2mChannel, Setter.normal, pkthdrScSet2mChannel, update_self,
        or_and_mask]
      rfl
  | clr2mChannel =>
      refine (readBack_one .is2mChannel trivial).trans (iff_of_true ?_ trivial)
      rw [Getter.normal, pkthdrScIs2mChannel, Setter.normal, pkthdrScClr2mChannel, update_self,
        not_mask_and_mask]
      rfl
  | clrFlen =>
      refine (readBack_one .flen trivial).trans (iff_of_true ?_ trivial)
      have h : ph 7 &&& 0xFC &&& 0x03 = 0 := not_mask_and_mask (ph 7) 0x03
      rw [Getter.normal, pkthdrScGetFlen, Setter.normal, pkthdrScClrFlen, update_self, h]
      rfl
  | flen n =>
      rw [Setter.values]
      refine iff_of_true ?_ trivial
      split
      case isTrue h =>
          exact (readBack_one .flen trivial).mpr (scGetFlen_scSetFlen h.1 h.2)
      case isFalse => exact List.forall_mem_nil _
  | plen n =>
      rw [Setter.values, Setter.Fits]
      split
      case isTrue h =>
          exact (readBack_one .plen trivial).trans (getPlen_setPlen_iff h)
      case isFalse h => exact iff_of_true (List.forall_mem_nil _) (by omega)
  | dlen n =>
      rw [Setter.values, Setter.Fits]
      split
      case isTrue h =>
          refine (readBack_one .dlen trivial).trans ((getDlen_setDlen_iff h.1 h.2).trans ?_)
          omega
      case isFalse h => exact iff_of_true (List.forall_mem_nil _) (by omega)
  | tsS v =>
      rw [Setter.values, List.forall_mem_singleton]
      exact readBoth_tsS (getTsS_setTsS ph v)
  | tsNs v =>
      rw [Setter.values, List.forall_mem_singleton]
      exact readBoth_tsNs (getTsNs_setTsNs ph v)
  | ts v ns =>
      rw [Setter.values, List.forall_mem_cons, List.forall_mem_singleton]
      exact and_congr (readBoth_tsS (getTsS_setTs ph v ns)) (readBoth_tsNs (getTsNs_setTsNs _ ns))
  | type t =>
      refine (readBack_one .type trivial).trans (iff_of_true ?_ trivial)
      have h : update ph 4 t 4 = t := update_self _ _ _
      exact congrArg (fun x : UInt8 => (x.toNat : Int)) h
  | subtype t =>
      refine (readBack_one .subtype trivial).trans (iff_of_true ?_ trivial)
      have h : update ph 5 t 5 = t := update_self _ _ _
      exact congrArg (fun x : UInt8 => (x.toNat : Int)) h
  | protocol t =>
      refine (readBack_one .protocol trivial).trans (iff_of_true ?_ trivial)
      have h : update ph 6 t 6 = t := update_self _ _ _
      exact congrArg (fun x : UInt8 => (x.toNat : Int)) h

theorem getters_iff : (∀ g : Getter, g.slow ph = g.normal host ph) ↔
    (pkthdrGetTsS host ph).toNat < 65536 ∧ (pkthdrGetTsNs host ph).toNat < 65536 := by
  constructor
  · intro h
    exact ⟨slowGetTsS_eq_iff.mp (h .tsS), slowGetTsNs_eq_iff.mp (h .tsNs)⟩
  · intro ⟨hs, hns⟩ g
    cases g with
    | tsS => exact slowGetTsS_eq_iff.mpr hs
    | tsNs => exact slowGetTsNs_eq_iff.mpr hns
    | _ => exact Getter.slow_eq host ph _ trivial

/-- The two families agree exactly while no time stamp needs more than two octets. -/
theorem agree_iff (host : Endian) (ph : Octets) (s : Setter) (buf : Option Octets) (size : Int) :
    Agree host ph s buf size ↔ (pkthdrGetTsS host ph).toNat < 65536 ∧
      (pkthdrGetTsNs host ph).toNat < 65536 ∧ s.Fits := by
  rw [← and_assoc, ← getters_iff]
  constructor
  · intro h
    exact ⟨h.getters, s.readBack_iff.mp h.readBack⟩
  · intro ⟨hg, hs⟩
    exact ⟨hg, s.slow_eq host ph, s.readBack_iff.mpr hs, s.others, verifySlow_eq host buf size⟩

def stampedHdr : Octets := fun i => if i = 12 then 1 else 0

/-- The first octet of a stamp counts 256 in one getter and 2^24 in the other. -/
theorem stamp_getters_differ : ¬ ∀ (host : Endian) (ph : Octets) (s : Setter) (buf : Option Octets)
    (size : Int), Agree host ph s buf size := by
  intro h
  have hts : Getter.slow stampedHdr .tsS = Getter.normal .big stampedHdr .tsS :=
    (h .big stampedHdr .sync none 0).getters .tsS
  revert hts
  decide

end OiAmc.PktAccess
