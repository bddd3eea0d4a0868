import OiAmc.SwtcStream

namespace OiAmc.SwtcDelineate

open PartialMachine ByteBuffer GotoLoop Swtc SwtcBuffer SwtcLine SwtcStream StreamWindows

structure Block where
  ph : PktHdr
  octets : List UInt8
  dlen : pkthdrGetDlen ph = octets.length

def Block.channel (b : Block) : Nat := b.ph.channel.toNat

def Block.data (b : Block) : Nat → UInt8 := fun i => b.octets.getD i 0

/-- The cells that swtc_proc returns until it returns NULL, when there is always memory. -/
def drain : Nat → Handle → Option (Handle × List Cell)
  | 0, _ => none
  | n + 1, hd => do
      let (hd, ph) ← swtcProc hd fun _ => true
      match ph with
      | none => return (hd, [])
      | some ph => do
          let (hd, cells) ← drain n hd
          return (hd, ph :: cells)

def feed (hd : Handle) (b : Block) : Option (Handle × Int × List Cell) := do
  let (hd, rc) ← swtcPush hd b.ph b.data
  if rc = 0 then do
    let (hd, cells) ← drain (npvImaBuffLen + 1) hd
    return (hd, rc, cells)
  else return (hd, rc, [])

def acceptedOf (k : Nat) (b : Block) (o : Int × List Cell) : List UInt8 :=
  if b.channel = k ∧ o.1 = 0 then b.octets else []

def accepted (k : Nat) (blocks : List Block) (outs : List (Int × List Cell)) : List UInt8 :=
  (List.zipWith (acceptedOf k) blocks outs).flatten

def returned (k : Nat) (outs : List (Int × List Cell)) : List (List UInt8) :=
  ((outs.flatMap Prod.snd).filter fun c => c.ph.channel.toNat = k).map Cell.data

variable {ch ch' : Channel} {hd : Handle} {b : Block} {j k n : Nat} {S S' : Nat → List UInt8}
  {R R' : Nat → List (List UInt8)}

theorem setCh_setCh (hd : Handle) (k : Nat) (ch ch' : Channel) :
    (hd.setCh k ch).setCh k ch' = hd.setCh k ch' := by
  simp only [Handle.setCh, Function.update_idem]

theorem setLastch_setCh (hd : Handle) (ch e : Channel) (h : k < hd.chnum) :
    ((hd.setCh k ch).setLastch k h).setCh k e = (hd.setCh k e).setLastch k h := by
  simp only [Handle.setCh, Handle.setLastch, Function.update_idem]

theorem setCh_ch (hd : Handle) (k : Nat) (ch : Channel) : (hd.setCh k ch).ch k = ch :=
  Function.update_self _ _ _

theorem setCh_ne (hd : Handle) (ch : Channel) (h : k ≠ j) : (hd.setCh j ch).ch k = hd.ch k :=
  Function.update_of_ne h _ _

theorem swtcProc_leaves (hk : hd.lastch = some k) (hdescr : hd.descramble = false)
    (h : Busy (hd.ch k)) :
    ∃ ch' ph, swtcProc hd (fun _ => true) = some (hd.setCh k ch', ph) ∧
      Leaves (.hunt, hd.ch k) (ch', ph) := by
  have hround (s : Label × Channel) (hs : Busy s.2) : Moves s := by
    obtain ⟨l, ch⟩ := s
    cases l with
    | hunt => exact procHunt_moves hs
    | popCell => exact procPopCell_moves hs
  obtain ⟨⟨ch', ph⟩, hl, hleave⟩ := loop_total_rel hround (s := (.hunt, hd.ch k)) h (Nat.lt_succ_self _)
  refine ⟨ch', ph, ?_, hleave⟩
  simp only [swtcProc, hk, hdescr, Option.bind_eq_bind, Option.bind_some, hl, Option.pure_def]

theorem drain_spec (hk : hd.lastch = some k) (hdescr : hd.descramble = false) (h : Busy (hd.ch k))
    (hn : (hd.ch k).len < n) :
    ∃ ch' cs, drain n hd = some (hd.setCh k ch', cs) ∧ Drain (line (hd.ch k)) cs (line ch') ∧
      Idle ch' := by
  induction n generalizing hd with
  | zero => omega
  | succ n ih =>
      obtain ⟨ch', ph, hproc, hp, hnone, hsome⟩ := swtcProc_leaves hk hdescr h
      rw [drain, hproc]
      cases ph with
      | none => exact ⟨ch', [], rfl, .stop hp, hnone rfl⟩
      | some c =>
          obtain ⟨hbusy, hlt⟩ := hsome (by simp)
          have hch := setCh_ch hd k ch'
          obtain ⟨e, cs, hd', hdr, hidle⟩ := @ih (hd.setCh k ch') hk hdescr (by rw [hch]; exact hbusy)
            (by rw [hch]; exact (lt_of_lt_of_le hlt (Nat.lt_succ_iff.mp hn)))
          rw [setCh_setCh] at hd'
          rw [hch] at hdr
          refine ⟨e, c :: cs, ?_, .cell hp hdr, hidle⟩
          simp only [Option.bind_eq_bind, Option.bind_some, hd', Option.pure_def]

theorem map_data (b : Block) : (List.range b.octets.length).map b.data = b.octets := by
  apply List.ext_getElem
  · rw [List.length_map, List.length_range]
  · intro i hi hi'
    simp only [List.getElem_map, List.getElem_range, Block.data, List.getD_eq_getElem?_getD,
      List.getElem?_eq_getElem hi', Option.getD_some]

def stamp (ph : CellHdr) (p : PktHdr) : CellHdr := { ph with tsS := p.tsS, tsNs := p.tsNs }

theorem take_idle (h : Idle ch) (hroom : ch.len + pkthdrGetDlen b.ph ≤ npvImaBuffLen) :
    ∃ ch', ch.take b.ph b.data = some ch' ∧
      line ch' = (line ch).receive (stamp ch.ph b.ph) b.octets ∧ InBuffer ch' ∧
      ch'.errStat = ch.errStat := by
  have hlen : (pkthdrGetDlen b.ph).toNat = b.octets.length := by rw [b.dlen, Int.toNat_natCast]
  have hb : memcpy ch.buffer (ch.data + ch.len) b.data (pkthdrGetDlen b.ph) = some _ :=
    memcpy_eq_some.mpr ⟨by rw [b.dlen]; exact Int.natCast_nonneg _, by
      rw [h.data, Nat.zero_add]; exact hroom, rfl⟩
  simp only [Channel.take, hb, Option.bind_eq_bind, Option.bind_some, Option.pure_def]
  refine ⟨_, rfl, ?_, ⟨?_, ?_⟩, rfl⟩
  · rw [line, hlen, entries_append, entries_overlay_of_le _ _ _ le_rfl, entries_overlay, map_data]
    rfl
  · show ch.data < npvImaBuffLen
    rw [h.data]
    exact npvImaBuffLen_pos
  · show ch.data + (ch.len + (pkthdrGetDlen b.ph).toNat) ≤ npvImaBuffLen
    rw [h.data, hlen]
    rw [b.dlen] at hroom
    omega

/-- What a channel is between two blocks: it accepted S and gave the cells R. -/
structure Settled (S : List UInt8) (R : List (List UInt8)) (k : Nat) (ch : Channel) : Prop where
  idle : Idle ch
  delivered : Delivered S R (line ch)
  channel : ch.ph.channel.toNat = k

structure AllSettled (S : Nat → List UInt8) (R : Nat → List (List UInt8)) (hd : Handle) : Prop where
  descramble : hd.descramble = false
  settled : ∀ k < hd.chnum, Settled (S k) (R k) k (hd.ch k)

theorem AllSettled.setCh (h : AllSettled S R hd) (hj : Settled (S' j) (R' j) j ch)
    (hne : ∀ k, k ≠ j → S' k = S k ∧ R' k = R k) : AllSettled S' R' (hd.setCh j ch) := by
  refine ⟨h.descramble, fun k hk => ?_⟩
  by_cases hkj : k = j
  · subst hkj
    rw [setCh_ch]
    exact hj
  · obtain ⟨hS, hR⟩ := hne k hkj
    rw [hS, hR, setCh_ne hd ch hkj]
    exact h.settled k hk

theorem open_settled {maxChannel : Int} (h : swtcOpen maxChannel = some hd) :
    AllSettled (fun _ => []) (fun _ => []) hd := by
  obtain ⟨hmax, h⟩ := Option.ite_none_left_eq_some.mp h
  cases h
  refine ⟨rfl, fun k hk => ⟨⟨rfl, Nat.zero_le _⟩, ⟨.stop _, fun _ => ?_⟩, ?_⟩⟩
  · exact ⟨0, ⟨rfl, by simp, .inl ⟨rfl, rfl, rfl⟩⟩, fun i hi => by simp at hi, rfl⟩
  · have hlt : k < maxChannel.toNat := hk
    exact UInt16.toNat_ofNat_of_lt' (show k < 65536 by omega)

theorem acceptedOf_refused (k : Nat) (b : Block) (cs : List Cell) : acceptedOf k b (-1, cs) = [] :=
  if_neg fun h => absurd h.2 (show (-1 : Int) ≠ 0 by decide)

theorem returned_nil (k : Nat) (rc : Int) : returned k [(rc, [])] = [] := rfl

theorem returned_of {cs : List Cell} (h : ∀ c ∈ cs, c.ph.channel.toNat = j) (k : Nat) (rc : Int) :
    returned k [(rc, cs)] = if k = j then cs.map Cell.data else [] := by
  rw [returned, List.flatMap_singleton]
  split
  · next hk =>
      subst hk
      rw [List.filter_eq_self.mpr fun c hc => decide_eq_true (h c hc)]
  · next hk =>
      rw [List.filter_eq_nil_iff.mpr, List.map_nil]
      intro c hc hkc
      exact hk ((of_decide_eq_true hkc).symm.trans (h c hc))

/-- What one block adds to what the channels accepted and gave. -/
def Feeds (S : Nat → List UInt8) (R : Nat → List (List UInt8)) (hd : Handle) (b : Block) : Prop :=
  ∃ hd' o, feed hd b = some (hd', o) ∧ hd'.chnum = hd.chnum ∧
    AllSettled (fun k => S k ++ acceptedOf k b o) (fun k => R k ++ returned k [o]) hd'

theorem feeds_refused {hd' : Handle} (h : AllSettled S R hd') (hch : hd'.chnum = hd.chnum)
    (hp : swtcPush hd b.ph b.data = some (hd', -1)) : Feeds S R hd b := by
  refine ⟨hd', (-1, []), by rw [feed, hp]; rfl, hch, ?_⟩
  simp only [acceptedOf_refused, returned_nil, List.append_nil]
  exact h

theorem feed_accepted (hidle : Idle (hd.ch b.channel)) (hdescr : hd.descramble = false)
    (hj : b.channel < hd.chnum) (herr : (hd.ch b.channel).errStat ≠ errorState)
    (hroom : (hd.ch b.channel).len + pkthdrGetDlen b.ph ≤ npvImaBuffLen) :
    ∃ e cs, feed hd b = some ((hd.setCh b.channel e).setLastch b.channel hj, 0, cs) ∧ Idle e ∧
      Drain ((line (hd.ch b.channel)).receive (stamp (hd.ch b.channel).ph b.ph) b.octets) cs (line e) := by
  obtain ⟨ch, htake, hline, hin, herr'⟩ := take_idle hidle hroom
  have hp : swtcPush hd b.ph b.data = some ((hd.setCh b.channel ch).setLastch b.channel hj, 0) := by
    simp only [Block.channel] at hj herr hroom htake
    rw [swtcPush]
    simp only [dif_pos hj, if_neg herr, if_neg (not_lt.mpr hroom), htake]
    rfl
  have hch : ((hd.setCh b.channel ch).setLastch b.channel hj).ch b.channel = ch := setCh_ch hd b.channel ch
  obtain ⟨e, cs, hdrain, hd', hidle'⟩ := @drain_spec
    ((hd.setCh b.channel ch).setLastch b.channel hj) b.channel (npvImaBuffLen + 1) rfl hdescr
    (by rw [hch]; exact ⟨hin, by rw [herr']; exact herr⟩)
    (by rw [hch]; exact Nat.lt_succ_of_le ((Nat.le_add_left _ _).trans hin.len_le))
  rw [hch, hline] at hd'
  refine ⟨e, cs, ?_, hidle', hd'⟩
  rw [feed, hp]
  rw [setLastch_setCh hd ch e hj] at hdrain
  simp only [Option.bind_eq_bind, Option.bind_some, if_true, hdrain, Option.pure_def]

theorem feeds_accepted (h : AllSettled S R hd) (hj : b.channel < hd.chnum)
    (herr : (hd.ch b.channel).errStat ≠ errorState)
    (hroom : (hd.ch b.channel).len + pkthdrGetDlen b.ph ≤ npvImaBuffLen) : Feeds S R hd b := by
  have hset := h.settled b.channel hj
  obtain ⟨e, cs, hfeed, hidle, hdrain⟩ := feed_accepted hset.idle h.descramble hj herr hroom
  obtain ⟨_, hph, hcs⟩ := hdrain.reads
  have hchan (c : Cell) (hc : c ∈ cs) : c.ph.channel.toNat = b.channel := by
    rw [hcs c hc]
    exact hset.channel
  have hsettled : AllSettled (fun k => S k ++ acceptedOf k b (0, cs))
      (fun k => R k ++ returned k [(0, cs)]) (hd.setCh b.channel e) := by
    apply h.setCh
    · refine ⟨hidle, ?_, ?_⟩
      · rw [returned_of hchan, if_pos rfl, acceptedOf, if_pos ⟨rfl, rfl⟩]
        exact hset.delivered.drain hdrain
      · show (line e).ph.channel.toNat = b.channel
        rw [hph]
        exact hset.channel
    · intro k hk
      rw [returned_of hchan, if_neg hk, acceptedOf, if_neg fun h => hk h.1.symm]
      exact ⟨List.append_nil _, List.append_nil _⟩
  exact ⟨_, (0, cs), hfeed, rfl, hsettled.descramble, hsettled.settled⟩

theorem Settled.refuse {S : List UInt8} {R : List (List UInt8)} (h : Settled S R k ch) :
    Settled S R k ch.refuse := ⟨⟨h.idle.data, h.idle.len⟩, h.delivered, h.channel⟩

theorem feed_settled (h : AllSettled S R hd) (b : Block) : Feeds S R hd b := by
  by_cases hj : b.channel < hd.chnum
  · by_cases herr : (hd.ch b.channel).errStat = errorState
    · have hrefuse := h.setCh (h.settled b.channel hj).refuse fun _ _ => ⟨rfl, rfl⟩
      refine feeds_refused hrefuse (show _ = hd.chnum from rfl) ?_
      simp only [Block.channel] at hj herr ⊢
      rw [swtcPush]
      simp only [dif_pos hj, if_pos herr]
    · by_cases hroom : (hd.ch b.channel).len + pkthdrGetDlen b.ph ≤ npvImaBuffLen
      · exact feeds_accepted h hj herr hroom
      · apply feeds_refused h rfl
        simp only [Block.channel] at hj herr hroom
        rw [swtcPush]
        simp only [dif_pos hj, if_neg herr, if_pos (not_le.mp hroom)]
  · apply feeds_refused h rfl
    simp only [Block.channel] at hj
    rw [swtcPush]
    simp only [dif_neg hj]

theorem returned_cons (k : Nat) (o : Int × List Cell) (os : List (Int × List Cell)) :
    returned k (o :: os) = returned k [o] ++ returned k os := by
  simp only [returned, List.flatMap_cons, List.flatMap_nil, List.append_nil, List.filter_append,
    List.map_append]

theorem run_settled (h : AllSettled S R hd) (blocks : List Block) :
    ∃ hd' outs, run feed hd blocks = some (hd', outs) ∧ hd'.chnum = hd.chnum ∧
      AllSettled (fun k => S k ++ accepted k blocks outs) (fun k => R k ++ returned k outs) hd' := by
  induction blocks generalizing hd S R with
  | nil =>
      refine ⟨hd, [], rfl, rfl, ?_⟩
      simp only [accepted, returned, List.zipWith_nil_left, List.flatten_nil, List.flatMap_nil,
        List.filter_nil, List.map_nil, List.append_nil]
      exact h
  | cons b blocks ih =>
      obtain ⟨hd₁, o, hfeed, hch₁, h₁⟩ := feed_settled h b
      obtain ⟨hd', outs, hrun, hch', h'⟩ := ih h₁
      refine ⟨hd', o :: outs, run_cons.mpr ⟨hd₁, o, outs, hfeed, hrun, rfl⟩, hch'.trans hch₁, ?_⟩
      have hret (k : Nat) : returned k (o :: outs) = returned k [o] ++ returned k outs :=
        returned_cons k o outs
      simp only [hret, accepted, List.zipWith_cons_cons, List.flatten_cons,
        ← List.append_assoc]
      exact h'

def idleCell : List UInt8 := [0, 0, 0, 0, 0x55] ++ List.replicate 48 0

def sixCells : Block where
  ph := ⟨85, 2, 0, 0, 0⟩
  octets := (List.replicate 6 idleCell).flatten
  dlen := by decide +kernel

end OiAmc.SwtcDelineate
