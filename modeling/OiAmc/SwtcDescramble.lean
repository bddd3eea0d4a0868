import OiAmc.BitField
import OiAmc.SelfSync
import OiAmc.SwtcBuffer
import Mathlib.Data.UInt
import Mathlib.Tactic.Ring

namespace OiAmc.SwtcDescramble

open PartialMachine BitField ByteBuffer SelfSync Swtc

variable {p q : Nat → UInt8} {n1 n2 r : UInt32} {ws : List UInt32}

def octetBits (o : UInt8) : List Bool := (List.range 8).map fun i => o.toNat.testBit (7 - i)

def bitsOf (os : List UInt8) : List Bool := os.flatMap octetBits

def wordBits (w : UInt32) : List Bool := bitsOf ((List.range 4).map (octet w))

theorem word_toNat (p : Nat → UInt8) : (word p).toNat =
    (p 0).toNat * 2 ^ 24 + (p 1).toNat * 2 ^ 16 + (p 2).toNat * 2 ^ 8 + (p 3).toNat :=
  octets_toNat (p 0) (p 1) (p 2) (p 3)

theorem seedWord_eq (p : Nat → UInt8) : seedWord p = word p := by
  have h0 := (p 0).toNat_lt
  have h1 := (p 1).toNat_lt
  have h2 := (p 2).toNat_lt
  have h3 := (p 3).toNat_lt
  apply UInt32.toNat.inj
  rw [word_toNat]
  simp only [seedWord, UInt32.toNat_add, UInt32.toNat_shiftLeft, UInt8.toNat_toUInt32,
    UInt32.reduceToNat, Nat.shiftLeft_eq, Nat.reduceMod, Nat.reducePow]
  omega

theorem octet_testBit (r : UInt32) {i j : Nat} (hi : i < 4) (hj : j < 8) :
    (octet r i).toNat.testBit j = r.toNat.testBit (24 - 8 * i + j) := by
  have hplace : (UInt32.ofNat (24 - 8 * i)).toNat % 32 = 24 - 8 * i := by
    rw [UInt32.toNat_ofNat']
    omega
  rw [octet, UInt32.toNat_toUInt8, UInt32.toNat_shiftRight, hplace, Nat.testBit_mod_two_pow,
    Nat.testBit_shiftRight]
  simp [hj]

theorem octet_word (p : Nat → UInt8) {i : Nat} (hi : i < 4) : octet (word p) i = p i := by
  have h1 := (p 1).toNat_lt
  have h2 := (p 2).toNat_lt
  have h3 := (p 3).toNat_lt
  have hplace : (UInt32.ofNat (24 - 8 * i)).toNat % 32 = 24 - 8 * i := by
    rw [UInt32.toNat_ofNat']
    omega
  apply UInt8.toNat.inj
  rw [octet, UInt32.toNat_toUInt8, UInt32.toNat_shiftRight, hplace, word_toNat,
    Nat.shiftRight_eq_div_pow]
  have hi' : i = 0 ∨ i = 1 ∨ i = 2 ∨ i = 3 := by omega
  have h0 := (p 0).toNat_lt
  rcases hi' with rfl | rfl | rfl | rfl
  all_goals omega

theorem octetBits_octet (w : UInt32) {i : Nat} (hi : i < 4) : octetBits (octet w i) =
    (List.range 8).map fun j => w.toNat.testBit (31 - (8 * i + j)) := by
  apply List.map_congr_left
  intro j hj
  have hj8 := List.mem_range.mp hj
  rw [octet_testBit w hi (by omega)]
  congr 1
  omega

theorem wordBits_eq (w : UInt32) :
    wordBits w = (List.range 32).map fun i => w.toNat.testBit (31 - i) := by
  rw [wordBits, bitsOf, List.flatMap_map]
  have hall : (List.range 4).flatMap (fun i => octetBits (octet w i)) =
      (List.range 4).flatMap fun i =>
        (List.range 8).map fun j => w.toNat.testBit (31 - (8 * i + j)) := by
    apply List.flatMap_congr
    intro i hi
    exact octetBits_octet w (List.mem_range.mp hi)
  rw [hall]
  rfl

@[simp] theorem length_wordBits (w : UInt32) : (wordBits w).length = 32 := by
  rw [wordBits_eq, List.length_map, List.length_range]

theorem wordBits_getElem? (w : UInt32) {i : Nat} (hi : i < 32) :
    (wordBits w)[i]? = some (w.toNat.testBit (31 - i)) := by
  rw [wordBits_eq, List.getElem?_map, List.getElem?_range hi]
  rfl

theorem highMask_testBit : ∀ j < 32, (0xFFE00000 : UInt32).toNat.testBit j = decide (21 ≤ j) := by
  decide

theorem lowMask_testBit : ∀ j < 32, (0x1FFFFF : UInt32).toNat.testBit j = decide (j < 21) := by
  decide

theorem descrambleWord_testBit (n1 n2 r : UInt32) {j : Nat} (hj : j < 32) :
    (descrambleWord n1 n2 r).toNat.testBit j = xor (r.toNat.testBit j)
      (if 21 ≤ j then n1.toNat.testBit (j - 21) else n2.toNat.testBit (11 + j)) := by
  have h21 : (21 : UInt32).toNat % 32 = 21 := rfl
  have h11 : (11 : UInt32).toNat % 32 = 11 := rfl
  rw [descrambleWord, UInt32.toNat_xor, UInt32.toNat_or, UInt32.toNat_and, UInt32.toNat_and,
    UInt32.toNat_shiftLeft, UInt32.toNat_shiftRight, h21, h11, Nat.testBit_xor, Nat.testBit_or,
    Nat.testBit_and, Nat.testBit_and, highMask_testBit j hj, lowMask_testBit j hj,
    Nat.testBit_mod_two_pow, Nat.testBit_shiftLeft, Nat.testBit_shiftRight]
  by_cases h : 21 ≤ j
  · simp [h, hj, not_lt.mpr h]
  · simp [h, not_le.mp h]

/-- Bits that are 43 apart: those of a word stand under eleven of the older word before it and
twenty-one of the newer one. -/
theorem descrambleWord_bits (n1 n2 r : UInt32) : wordBits (descrambleWord n1 n2 r) =
    descrambleBits 43 (wordBits n1 ++ wordBits n2) (wordBits r) := by
  have hlen : (wordBits n1 ++ wordBits n2).length = 64 := by
    rw [List.length_append, length_wordBits, length_wordBits]
  apply List.ext_getElem?
  intro i
  by_cases hi : i < 32
  · have hlast : ((wordBits n1 ++ wordBits n2) ++ wordBits r)[64 + i]? =
        some (r.toNat.testBit (31 - i)) := by
      rw [List.getElem?_append_right (by omega), hlen, Nat.add_sub_cancel_left, wordBits_getElem? r hi]
    have hback : ((wordBits n1 ++ wordBits n2) ++ wordBits r)[64 + i - 43]? =
        some (if 21 ≤ 31 - i then n1.toNat.testBit (31 - i - 21)
          else n2.toNat.testBit (11 + (31 - i))) := by
      rw [List.getElem?_append_left (by omega)]
      by_cases h11 : i < 11
      · rw [List.getElem?_append_left (by rw [length_wordBits]; omega),
          wordBits_getElem? n1 (by omega), if_pos (by omega)]
        congr 2
        omega
      · rw [List.getElem?_append_right (by rw [length_wordBits]; omega), length_wordBits,
          wordBits_getElem? n2 (by omega), if_neg (by omega)]
        congr 2
        omega
    rw [wordBits_getElem? _ hi, descrambleWord_testBit n1 n2 r (by omega),
      descramble_getElem? (by omega) (by rw [length_wordBits]; exact hi), hlen,
      List.getD_eq_getElem?_getD, List.getD_eq_getElem?_getD, hlast, hback]
    rfl
  · rw [List.getElem?_eq_none (by rw [length_wordBits]; omega),
      List.getElem?_eq_none (by rw [length_descramble, length_wordBits]; omega)]

/-- The words that are kept are the last two that came. -/
def Seen (ch : Channel) (stream : List Bool) : Prop :=
  ∃ pre, stream = pre ++ (wordBits ch.n1 ++ wordBits ch.n2)

theorem Seen.next {ch ch' : Channel} {stream : List Bool} (h : Seen ch stream)
    (h1 : ch'.n1 = ch.n2) : Seen ch' (stream ++ wordBits ch'.n2) := by
  obtain ⟨pre, rfl⟩ := h
  refine ⟨pre ++ wordBits ch.n1, ?_⟩
  rw [h1]
  simp only [List.append_assoc]

theorem Seen.descramble {ch : Channel} {stream xs : List Bool} (h : Seen ch stream) :
    descrambleBits 43 (wordBits ch.n1 ++ wordBits ch.n2) xs = descrambleBits 43 stream xs := by
  obtain ⟨pre, rfl⟩ := h
  apply (descramble_recent pre _).symm
  rw [List.length_append, length_wordBits, length_wordBits]
  decide

theorem Seen.length {ch : Channel} {stream : List Bool} (h : Seen ch stream) : 43 ≤ stream.length := by
  obtain ⟨pre, rfl⟩ := h
  simp only [List.length_append, length_wordBits]
  omega

theorem wordBits_word (b : Nat → UInt8) (a : Nat) :
    wordBits (word fun i => b (a + i)) = bitsOf (entries b a 4) := by
  apply congrArg bitsOf
  apply List.map_congr_left
  intro i hi
  exact octet_word _ (List.mem_range.mp hi)

theorem wordBits_octets (b : Nat → UInt8) (a : Nat) (w : UInt32) :
    bitsOf (entries (overlay b a 4 (octet w)) a 4) = wordBits w := by
  rw [entries_overlay]
  rfl

theorem bitsOf_append (os os' : List UInt8) : bitsOf (os ++ os') = bitsOf os ++ bitsOf os' :=
  List.flatMap_append

structure Partway (ch : Channel) (stream : List Bool) (n : Nat) (ch' : Channel) : Prop where
  fields : ch' = { ch with buffer := ch'.buffer, n1 := ch'.n1, n2 := ch'.n2 }
  seen : Seen ch' (stream ++ bitsOf (entries ch.buffer (ch.data + 5) (4 * n)))
  done : bitsOf (entries ch'.buffer (ch.data + 5) (4 * n)) =
    descrambleBits 43 stream (bitsOf (entries ch.buffer (ch.data + 5) (4 * n)))
  rest : ∀ i, i < ch.data + 5 ∨ ch.data + 5 + 4 * n ≤ i → ch'.buffer i = ch.buffer i

theorem descrambleAt_partway {ch ch' : Channel} {stream : List Bool} {n : Nat}
    (hlen : 43 ≤ stream.length) (h : Partway ch stream n ch')
    (hroom : ch.data + 5 + 4 * n + 4 ≤ npvImaBuffLen) :
    ∃ ch'', descrambleAt ch' n = some ch'' ∧ Partway ch stream (n + 1) ch'' := by
  have hdata : ch'.data = ch.data := by rw [h.fields]
  have hword : (word fun i => ch'.buffer (ch.data + 5 + 4 * n + i)) =
      word fun i => ch.buffer (ch.data + 5 + 4 * n + i) := by
    simp only [word, h.rest _ (Or.inr (Nat.le_add_right _ _))]
  have hbits := wordBits_word ch.buffer (ch.data + 5 + 4 * n)
  rw [descrambleAt]
  simp only [hdata, view_of_le hroom, store_of_le hroom, Option.map_some, Option.bind_eq_bind,
    Option.bind_some, Option.pure_def, hword]
  refine ⟨_, rfl, ?_, ?_, ?_, fun i hi => ?_⟩
  · rw [h.fields]
  · rw [Nat.mul_succ, entries_append, bitsOf_append, ← hbits, ← List.append_assoc]
    exact h.seen.next rfl
  · have hkept : entries (overlay ch'.buffer (ch.data + 5 + 4 * n) 4 (octet (descrambleWord ch'.n1
        ch'.n2 (word fun i => ch.buffer (ch.data + 5 + 4 * n + i))))) (ch.data + 5) (4 * n) =
        entries ch'.buffer (ch.data + 5) (4 * n) := entries_overlay_of_le _ _ _ (le_refl _)
    rw [Nat.mul_succ, entries_append, bitsOf_append, entries_append, bitsOf_append, hkept, h.done,
      wordBits_octets, descrambleWord_bits, h.seen.descramble, hbits,
      descramble_append (by decide) hlen]
  · dsimp only
    rw [overlay, if_neg (by omega)]
    exact h.rest i (by omega)

theorem descramble_words {ch : Channel} {stream : List Bool} (h : Seen ch stream)
    (hroom : ch.data + 53 ≤ npvImaBuffLen) :
    ∃ ch', descramble ch = some ch' ∧ Partway ch stream 12 ch' := by
  have hall (n : Nat) (hn : n ≤ 12) :
      ∃ ch', (List.range n).foldlM descrambleAt ch = some ch' ∧ Partway ch stream n ch' := by
    induction n with
    | zero =>
        refine ⟨ch, rfl, rfl, ?_, rfl, fun _ _ => rfl⟩
        rw [Nat.mul_zero]
        simpa [entries, bitsOf] using h
    | succ n ih =>
        obtain ⟨ch1, h1, hpart⟩ := ih (by omega)
        obtain ⟨ch2, h2, hpart'⟩ := descrambleAt_partway h.length hpart (by omega)
        refine ⟨ch2, ?_, hpart'⟩
        rw [List.range_succ, List.foldlM_append, h1]
        simpa using h2
  exact hall 12 (le_refl _)

structure PlacedCell where
  buffer : Nat → UInt8
  data : Nat
  fits : data + 53 ≤ npvImaBuffLen

def PlacedCell.octets (cell : PlacedCell) : List UInt8 := entries cell.buffer cell.data 53

def PlacedCell.payload (cell : PlacedCell) : List UInt8 := entries cell.buffer (cell.data + 5) 48

/-- The cell has come to the read position of the channel. -/
def place (ch : Channel) (cell : PlacedCell) : Channel :=
  { ch with buffer := cell.buffer, data := cell.data }

def pass (ch : Channel) (cell : PlacedCell) : Option (Channel × List UInt8) :=
  (descramble (place ch cell)).map fun ch' => (ch', entries ch'.buffer (cell.data + 5) 48)

theorem pass_bits {ch : Channel} {stream : List Bool} (h : Seen ch stream) (cell : PlacedCell) :
    ∃ ch' os, pass ch cell = some (ch', os) ∧ Seen ch' (stream ++ bitsOf cell.payload) ∧
      bitsOf os = descrambleBits 43 stream (bitsOf cell.payload) := by
  have hplaced : Seen (place ch cell) stream := h
  obtain ⟨ch', hch, hpart⟩ := descramble_words hplaced cell.fits
  refine ⟨ch', _, by rw [pass, hch]; rfl, hpart.seen, hpart.done⟩

theorem run_bits {ch : Channel} {stream : List Bool} (h : Seen ch stream) (cells : List PlacedCell) :
    ∃ ch' oss, run pass ch cells = some (ch', oss) ∧
      bitsOf oss.flatten = descrambleBits 43 stream (bitsOf (cells.flatMap PlacedCell.payload)) := by
  induction cells generalizing ch stream with
  | nil => exact ⟨ch, [], rfl, rfl⟩
  | cons cell cells ih =>
      obtain ⟨ch1, os, hpass, hseen, hbits⟩ := pass_bits h cell
      obtain ⟨ch', oss, hrun, hrest⟩ := ih hseen
      refine ⟨ch', os :: oss, run_cons.mpr ⟨ch1, os, oss, hpass, hrun, rfl⟩, ?_⟩
      rw [List.flatten_cons, bitsOf_append, hbits, hrest, List.flatMap_cons, bitsOf_append,
        descramble_append (by decide) h.length]

theorem seed_seen (descr alloc : Bool) (ch : Channel) (hfirst : ch.firsttime ≠ 0) (cell : PlacedCell) :
    ∃ ch', swtcReturnCell descr alloc (place ch cell) = some (ch', none) ∧ ch'.firsttime = 0 ∧
      Seen ch' (bitsOf cell.payload) := by
  have hview : view npvImaBuffLen cell.buffer cell.data 53 = some fun i => cell.buffer (cell.data + i) :=
    view_of_le cell.fits
  rw [swtcReturnCell]
  simp only [place, if_pos hfirst, hview, Option.bind_eq_bind, Option.bind_some, Option.pure_def]
  refine ⟨_, rfl, rfl, bitsOf (entries cell.buffer (cell.data + 5) 40), ?_⟩
  have h1 := wordBits_word cell.buffer (cell.data + 45)
  have h2 := wordBits_word cell.buffer (cell.data + 49)
  have hsplit : cell.payload = entries cell.buffer (cell.data + 5) 40 ++
      (entries cell.buffer (cell.data + 45) 4 ++ entries cell.buffer (cell.data + 49) 4) := by
    rw [← entries_append cell.buffer (cell.data + 45) 4 4, ← entries_append]
    rfl
  rw [hsplit, bitsOf_append, bitsOf_append, ← h1, ← h2]
  simp only [Channel.skip, seedWord_eq, Nat.add_assoc]

theorem seen_self (ch : Channel) : Seen ch (wordBits ch.n1 ++ wordBits ch.n2) := ⟨[], rfl⟩

theorem returnCell_pass {ch : Channel} (hseeded : ch.firsttime = 0) (alloc : Bool) {cell : PlacedCell}
    {ch' : Channel} {os : List UInt8} (h : pass ch cell = some (ch', os)) :
    swtcReturnCell true alloc (place ch cell) =
      some (ch'.skip 53, if alloc then some ⟨ch.ph, cell.octets.take 5 ++ os⟩ else none) := by
  obtain ⟨ch1, hdescr, he⟩ := Option.map_eq_some_iff.mp h
  obtain ⟨rfl, rfl⟩ := Prod.mk.inj he
  obtain ⟨ch2, hch2, hpart⟩ := descramble_words (seen_self (place ch cell)) cell.fits
  obtain rfl : ch1 = ch2 := Option.some.inj (hdescr.symm.trans hch2)
  have hdata : ch1.data = cell.data := by rw [hpart.fields]; rfl
  have hph : ch1.ph = ch.ph := by rw [hpart.fields]; rfl
  have hheader : entries ch1.buffer cell.data 5 = cell.octets.take 5 := by
    rw [PlacedCell.octets, take_entries _ _ (by decide)]
    exact entries_congr fun i hi => hpart.rest _ (Or.inl (Nat.add_lt_add_left hi _))
  have hview : view npvImaBuffLen ch1.buffer ch1.data 53 =
      some fun i => ch1.buffer (cell.data + i) := by
    rw [hdata]
    exact view_of_le cell.fits
  have hcell : (List.range 53).map (fun i => ch1.buffer (cell.data + i)) =
      cell.octets.take 5 ++ entries ch1.buffer (cell.data + 5) 48 := by
    rw [← hheader, ← entries_append]
    rfl
  have hnotFirst : ¬ (place ch cell).firsttime ≠ 0 := not_not.mpr hseeded
  rw [swtcReturnCell, if_neg hnotFirst]
  simp only [if_true, hdescr, hview, Option.bind_eq_bind, Option.bind_some, Option.pure_def, hcell,
    hph]

@[simp] theorem length_bitsOf (os : List UInt8) : (bitsOf os).length = 8 * os.length := by
  rw [bitsOf, List.length_flatMap]
  simp [octetBits, Nat.mul_comm]

/-- The cells behind a seeding cell come out of the descrambler as the bits of the stream of
payloads are added to those that came 43 bits earlier. That undoes the scrambler. -/
theorem descramble_bitSerial (descr alloc : Bool) (ch : Channel) (hfirst : ch.firsttime ≠ 0)
    (first : PlacedCell) (cells : List PlacedCell) :
    ∃ ch1 ch' oss, swtcReturnCell descr alloc (place ch first) = some (ch1, none) ∧
      run pass ch1 cells = some (ch', oss) ∧
      (bitsOf oss.flatten).length = (bitsOf (cells.flatMap PlacedCell.payload)).length ∧
      (∀ i < (bitsOf oss.flatten).length, (bitsOf oss.flatten)[i]? = some (xor
        ((bitsOf ((first :: cells).flatMap PlacedCell.payload)).getD (384 + i) false)
        ((bitsOf ((first :: cells).flatMap PlacedCell.payload)).getD (384 + i - 43) false))) ∧
      ∀ plain, bitsOf (cells.flatMap PlacedCell.payload) =
          scrambleBits 43 (bitsOf first.payload) plain → bitsOf oss.flatten = plain := by
  obtain ⟨ch1, hseed, -, hseen⟩ := seed_seen descr alloc ch hfirst first
  obtain ⟨ch', oss, hrun, hbits⟩ := run_bits hseen cells
  refine ⟨ch1, ch', oss, hseed, hrun, ?_, fun i hi => ?_, fun plain hplain => ?_⟩
  · rw [hbits, length_descramble]
  · have hlen : (bitsOf first.payload).length = 384 := by
      rw [length_bitsOf, PlacedCell.payload, length_entries]
    rw [hbits, length_descramble] at hi
    rw [hbits, descramble_getElem? hseen.length hi, List.flatMap_cons, bitsOf_append, hlen]
  · rw [hbits, hplain, descramble_scramble (by decide) hseen.length]

/-- A cell at the start of the buffer, all of whose octets have one value. -/
def evenCell (o : UInt8) : PlacedCell := ⟨fun _ => o, 0, by decide⟩

theorem descramble_bitSerial_even :
    ∃ ch1 ch' oss, swtcReturnCell true true (place (openChannel 3) (evenCell 0xa5)) = some (ch1, none) ∧
      run pass ch1 [evenCell 0x3c] = some (ch', oss) ∧
      (bitsOf oss.flatten).length = (bitsOf ([evenCell 0x3c].flatMap PlacedCell.payload)).length ∧
      (∀ i < (bitsOf oss.flatten).length, (bitsOf oss.flatten)[i]? = some (xor
        ((bitsOf ([evenCell 0xa5, evenCell 0x3c].flatMap PlacedCell.payload)).getD (384 + i) false)
        ((bitsOf ([evenCell 0xa5, evenCell 0x3c].flatMap PlacedCell.payload)).getD (384 + i - 43)
          false))) ∧
      ∀ plain, bitsOf ([evenCell 0x3c].flatMap PlacedCell.payload) =
          scrambleBits 43 (bitsOf (evenCell 0xa5).payload) plain → bitsOf oss.flatten = plain :=
  descramble_bitSerial true true (openChannel 3) (by decide) (evenCell 0xa5) [evenCell 0x3c]

end OiAmc.SwtcDescramble
