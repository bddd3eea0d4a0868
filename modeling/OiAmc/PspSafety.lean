import OiAmc.Psp

namespace OiAmc.Psp

open ByteBuffer MessageLayout Pkt
open ByteOrder (Endian)
open Psp.Field

variable {cs : List Case} {c : Case} {host : Endian} {ph : Octets} {msg : Msg} {size : Int}

theorem header_of_accepted (h : 0 < pktVerify host (some ph) size) : 20 ≤ pkthdrGetPlen host ph := by
  rw [pktVerify] at h
  have hsize : hdrSize = 20 := rfl
  split_ifs at h <;> omega

theorem gets_num (c : Case) : ∀ g ∈ c.gets, g.num?.isSome := by
  intro g hg
  obtain ⟨f, -, rfl⟩ := List.mem_map.mp hg
  rfl

theorem gets_width (c : Case) : (c.gets.map Get.width).sum = c.width := by
  rw [Case.gets, Case.width, List.map_map]
  rfl

/-- Where a decoder starts: all of the payload is left. -/
def start (host : Endian) (ph : Octets) (msg : Msg) : Reader Field :=
  ⟨0, pkthdrGetDlen host ph, 0, [], ⟨msg.num, fun _ => [], none⟩⟩

theorem start_sound (msg : Msg) (h : 20 ≤ pkthdrGetPlen host ph) :
    (start host ph msg).Sound fieldType (pkthdrGetDlen host ph) := by
  have hdlen : 0 ≤ pkthdrGetDlen host ph := Int.sub_nonneg_of_le h
  exact ⟨by simp [start], hdlen, hdlen, rfl, rfl, fun _ => trivial⟩

def behind (c : Case) (host : Endian) (ph : Octets) (msg : Msg) : Bool × Reader Field :=
  read (payload ph) (fun _ => true) c.gets (start host ph msg)

theorem pspDecodeMsg_of_none (h : caseOf cs (msgId ph) = none) :
    (pspDecodeMsg cs host ph msg).seen = 20 := by
  rw [caseOf] at h
  simp only [pspDecodeMsg, h]

theorem pspDecodeMsg_eq (h : caseOf cs (msgId ph) = some c) :
    pspDecodeMsg cs host ph msg =
      if (behind c host ph msg).1 then
        c.tail.finish (pkthdrGetPlen host ph).toNat
          ⟨msgId ph, (behind c host ph msg).2.value.num, msg.blockBuf, msg.silenceData, some 0⟩
          (behind c host ph msg).2
      else ⟨-1, ⟨msgId ph, (behind c host ph msg).2.value.num, msg.blockBuf, msg.silenceData, some 0⟩,
        20 + (behind c host ph msg).2.seen⟩ := by
  rw [caseOf] at h
  obtain ⟨⟨done, r⟩, hb⟩ : ∃ x, behind c host ph msg = x := ⟨_, rfl⟩
  have hread : read (payload ph) (fun _ => true) c.gets
      ⟨0, pkthdrGetDlen host ph, 0, [], ⟨msg.num, fun _ => [], none⟩⟩ = (done, r) := hb
  simp only [pspDecodeMsg, h, hread, hb]
  cases done <;> rfl

section Accepted

variable (h : 20 ≤ pkthdrGetPlen host ph)

include h

theorem behind_short (msg : Msg) (hw : pkthdrGetDlen host ph < c.width) :
    (behind c host ph msg).1 = false ∧
      (behind c host ph msg).2.Sound fieldType (pkthdrGetDlen host ph) := by
  have hread := (read_nums (payload ph) (fun _ => true) (gets_num c) (start_sound msg h) []).1
  rw [gets_width, List.append_nil] at hread
  exact hread hw

theorem behind_full (hw : c.width ≤ pkthdrGetDlen host ph) :
    (behind c host ph msg).1 = true ∧ (behind c host ph msg).2.pos = c.width ∧
      (behind c host ph msg).2.Sound fieldType (pkthdrGetDlen host ph) := by
  have hread := (read_nums (payload ph) (fun _ => true) (gets_num c) (start_sound msg h) []).2
  rw [gets_width, List.append_nil] at hread
  obtain ⟨r, hr, hsound, hpos⟩ := hread hw
  rw [behind, hr]
  exact ⟨rfl, hpos.trans (Nat.zero_add _), hsound⟩

omit h in
theorem behind_size (hf : c.fields = [(blockFlag, 2), (blockType, 2), (blockSize, 4)])
    (hw : 8 ≤ pkthdrGetDlen host ph) : (behind c host ph msg).2.value.num blockSize = sizeOf ph := by
  have hflag : ¬pkthdrGetDlen host ph < 2 := by omega
  have htype : ¬pkthdrGetDlen host ph - 2 < 2 := by omega
  have hsize : ¬pkthdrGetDlen host ph - 2 - 2 < 4 := by omega
  simp [behind, start, Case.gets, hf, MessageLayout.read, Get.read, Reader.skip, Reader.look, hflag, htype, hsize,
    Value.setNum, sizeOf]

theorem seen_le (t : Tail) {m : Msg} {r : Reader Field}
    (hr : r.Sound fieldType (pkthdrGetDlen host ph)) :
    ((t.finish (pkthdrGetPlen host ph).toNat m r).seen : Int) ≤ pkthdrGetPlen host ph := by
  have hseen := hr.seen
  have hdlen : pkthdrGetDlen host ph = pkthdrGetPlen host ph - 20 := rfl
  have hmax : ((max (20 + r.seen) (pkthdrGetPlen host ph).toNat : Nat) : Int) ≤ pkthdrGetPlen host ph := by
    omega
  cases t with
  | none | block => exact hmax
  | silence =>
      rw [Tail.finish]
      split_ifs
      · exact hmax
      · simp only
        omega

theorem inside : ((pspDecodeMsg cs host ph msg).seen : Int) ≤ pkthdrGetPlen host ph := by
  rcases hc : caseOf cs (msgId ph) with _ | c
  · rw [pspDecodeMsg_of_none hc]
    exact h
  rw [pspDecodeMsg_eq hc]
  have hdlen : pkthdrGetDlen host ph = pkthdrGetPlen host ph - 20 := rfl
  by_cases hw : pkthdrGetDlen host ph < c.width
  · obtain ⟨hfail, hsound⟩ := behind_short h msg hw
    have hseen := hsound.seen
    rw [hfail, if_neg Bool.false_ne_true]
    simp only
    omega
  · obtain ⟨hdone, -, hsound⟩ := behind_full h (not_lt.mp hw)
    rw [if_pos hdone]
    exact seen_le h _ hsound

theorem refused (hc : caseOf cs (msgId ph) = some c) (hw : pkthdrGetDlen host ph < c.width) :
    (pspDecodeMsg cs host ph msg).rc = -1 := by
  rw [pspDecodeMsg_eq hc, (behind_short h msg hw).1, if_neg Bool.false_ne_true]

theorem silence_inside (hc : caseOf cs (msgId ph) = some c) (ht : c.tail = .silence)
    (hrc : (pspDecodeMsg cs host ph msg).rc = 0) :
    ∃ a, (pspDecodeMsg cs host ph msg).msg.silenceData = some a ∧ 20 ≤ a ∧
      (a : Int) + 2 * ((pspDecodeMsg cs host ph msg).msg.num silenceCount).toNat ≤ pkthdrGetPlen host ph := by
  have hdlen : pkthdrGetDlen host ph = pkthdrGetPlen host ph - 20 := rfl
  by_cases hw : pkthdrGetDlen host ph < c.width
  · rw [refused h hc hw] at hrc
    cases hrc
  obtain ⟨hdone, -, hsound⟩ := behind_full h (not_lt.mp hw)
  rw [pspDecodeMsg_eq hc, if_pos hdone, ht, Tail.finish] at hrc ⊢
  split_ifs at hrc ⊢ with hleft
  · have hrest := hsound.left
    refine ⟨_, rfl, Nat.le_add_right _ _, ?_⟩
    simp only at hleft ⊢
    omega
  · cases hrc

theorem block_stored (msg : Msg) (hc : caseOf cs (msgId ph) = some c) (ht : c.tail = .block)
    (hf : c.fields = [(blockFlag, 2), (blockType, 2), (blockSize, 4)]) :
    ((pspDecodeMsg cs host ph msg).rc = 0 ↔ 8 ≤ pkthdrGetDlen host ph) ∧
      (8 ≤ pkthdrGetDlen host ph → (pspDecodeMsg cs host ph msg).msg.blockBuf = some 28 ∧
        (pspDecodeMsg cs host ph msg).msg.num blockSize = sizeOf ph) := by
  have hwidth : c.width = 8 := by rw [Case.width, hf]; rfl
  by_cases hw : 8 ≤ pkthdrGetDlen host ph
  · obtain ⟨hdone, hpos, -⟩ := behind_full h (c := c) (by omega)
    rw [pspDecodeMsg_eq hc, if_pos hdone, ht, Tail.finish, hpos, hwidth]
    exact ⟨iff_of_true rfl hw, fun _ => ⟨rfl, behind_size hf hw⟩⟩
  · refine ⟨iff_of_false ?_ hw, fun h => absurd h hw⟩
    rw [refused h hc (by omega)]
    decide

theorem safe_of_fits (hcs : Laid cs) (hfits : BlockFits host ph) : Safe cs host ph msg where
  inside := inside h
  refused := fun _ => refused h
  block := by
    intro c hc ht hrc
    obtain ⟨hlabels, hfields⟩ := (hcs.1 c (List.mem_of_find?_eq_some hc)).1 ht
    have hid : msgId ph = PSP_MSG_BLOCK_DATA := by
      have hmem := List.find?_some hc
      rw [hlabels] at hmem
      simpa using hmem
    obtain ⟨hdone, hstored⟩ := block_stored h msg hc ht hfields
    have hw := hdone.mp hrc
    obtain ⟨hbuf, hsize⟩ := hstored hw
    have hdlen : pkthdrGetDlen host ph = pkthdrGetPlen host ph - 20 := rfl
    refine ⟨28, hbuf, by decide, ?_⟩
    rw [hsize]
    have hleft := hfits hid hw
    omega
  silence := fun _ hc ht hrc => silence_inside h hc ht hrc

theorem fits_of_safe (hcs : Laid cs) (hsafe : Safe cs host ph msg) : BlockFits host ph := by
  intro hid hw
  obtain ⟨hlaid, c, hc, ht⟩ := hcs
  have hfields := ((hlaid c (List.mem_of_find?_eq_some hc)).1 ht).2
  rw [← hid] at hc
  obtain ⟨hdone, hstored⟩ := block_stored h msg hc ht hfields
  obtain ⟨a, ha, -, hin⟩ := hsafe.block c hc ht (hdone.mpr hw)
  obtain ⟨hbuf, hsize⟩ := hstored hw
  have hdlen : pkthdrGetDlen host ph = pkthdrGetPlen host ph - 20 := rfl
  obtain rfl : a = 28 := Option.some.inj (ha.symm.trans hbuf)
  rw [hsize] at hin
  omega

end Accepted

/-- Both decoders are safe on an accepted packet just where a block is as long as its size
says. -/
theorem psp_decode_safe_iff (host : Endian) (ph : Octets) (size : Int)
    (haccepted : 0 < pktVerify host (some ph) size) (msg : Msg) :
    (Safe cases host ph msg ↔ BlockFits host ph) ∧ (Safe lkmpCases host ph msg ↔ BlockFits host ph) := by
  have h := header_of_accepted haccepted
  exact ⟨⟨fits_of_safe h cases_laid, safe_of_fits h cases_laid⟩,
    fits_of_safe h lkmpCases_laid, safe_of_fits h lkmpCases_laid⟩

/-- Block data of 28 octets: none is left behind the size, which says one. -/
def cutBlock : Octets := fun i =>
  [0x7e, 0x5a, 0, 7, 0x23, 0x76, 0, 0, 0, 0, 0, 0, 0, 0, 0, 0, 0, 0, 0, 0, 0, 0, 0, 0, 0, 0, 0, 1].getD i 0

def emptyMsg : Msg := ⟨0, fun _ => 0, none, none, none⟩

theorem psp_decode_safe_cut :
    (Safe cases .big cutBlock emptyMsg ↔ BlockFits .big cutBlock) ∧
      (Safe lkmpCases .big cutBlock emptyMsg ↔ BlockFits .big cutBlock) :=
  psp_decode_safe_iff .big cutBlock 28 (by decide) emptyMsg

theorem cut_block_stored : ¬∀ (host : Endian) (ph : Octets) (size : Int),
    0 < pktVerify host (some ph) size → ∀ msg : Msg, Safe cases host ph msg ∧ Safe lkmpCases host ph msg := by
  intro h
  have haccepted : 0 < pktVerify .big (some cutBlock) 28 := by decide
  have hfits := fits_of_safe (header_of_accepted haccepted) cases_laid
    (h .big cutBlock 28 haccepted emptyMsg).1
  have hleft := hfits rfl (by decide)
  revert hleft
  decide

end OiAmc.Psp
