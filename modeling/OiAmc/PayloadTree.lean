import Mathlib.Data.Set.Function
import OiAmc.SlinkSessions

namespace OiAmc.PayloadTree

open Script SlinkSessions

/-- The tree that the names stand for: three TUG-3 with seven TUG-2 with three C-1x, over as
many channels. -/
structure Sdh (c : Common) : Prop where
  channels : c.channelMaxnum = 63
  tug3s : c.tug3Maxnum = 3
  tug2s : c.tug2Maxnum = 7
  c1xs : c.c1xMaxnum = 3

/-- `i + (j * 3) + (k * 21)` -/
def c1xNum (i j k : Nat) : Nat := i + j * 3 + k * 21

/-- The channel record that the driver leaves when channel n is read. -/
def channel (results : Results) (port : UInt8) (n : Nat) : SlinkInfo :=
  (results (n + 2) (.slinkInfo (port - 1) (.ofNat n))).2

structure ReadsChannels (c : Common) (results : Results) (port : UInt8) : Prop where
  hp : (results 0 (.slinkInfoHp (port - 1))).1 = 0
  tug : (results 0 (.slinkInfoHp (port - 1))).2.c2Val = 0x02
  start : results 1 .slinkInfoStart = (0 : Int)
  read : ∀ i < c.channelMaxnum.toNat, channelRc results (i + 2) (port - 1) (.ofNat i) = 0

/-- What `get_payload_lp` leaves in the tree. -/
def reported (c : Common) (results : Results) (info : PayloadLpinfo) : PayloadLpinfo :=
  ((getPayloadLp c true info).play results).2.2

/-- The C-1x at (i, j, k) is of channel `i + 3j + 21k`, and a TUG-2 has the rate of a channel
that is below it. -/
structure Compatible (slink : Nat → SlinkInfo) (info : PayloadLpinfo) : Prop where
  tug3s : info.tug3sNum = 3
  tug2s : ∀ i < 3, (info.tug3s i).tug2sNum = 7
  c1xs : ∀ i < 3, ∀ j < 7, ((info.tug3s i).tug2s j).c1xsNum = 3
  refers : ∀ i < 3, ∀ j < 7, ∀ k < 3,
    (((info.tug3s i).tug2s j).c1xs k).type = (slink (c1xNum i j k)).svcType
  rates : ∀ i < 3, ∀ j < 7, ∃ k < 3,
    ((info.tug3s i).tug2s j).type = (slink (c1xNum i j k)).channelRate

/-- Channel `3i + j` has the rate of a channel below TUG-2 j of TUG-3 i. -/
def SharesRate (slink : Nat → SlinkInfo) (i j : Nat) : Prop :=
  ∃ k < 3, (slink (i * 3 + j)).channelRate = (slink (c1xNum i j k)).channelRate

theorem c1xNum_bijOn : Set.BijOn (fun p : Nat × Nat × Nat => c1xNum p.1 p.2.1 p.2.2)
    {p | p.1 < 3 ∧ p.2.1 < 7 ∧ p.2.2 < 3} {n | n < 63} := by
  refine @Set.InvOn.bijOn _ _ _ _ _ (fun n => (n % 3, n / 3 % 7, n / 21)) ⟨?_, ?_⟩ ?_ ?_
  · rintro ⟨i, j, k⟩ ⟨hi, hj, hk⟩
    simp only at hi hj hk
    simp only [c1xNum, Prod.mk.injEq]
    omega
  · intro n hn
    simp only [c1xNum]
    omega
  · rintro ⟨i, j, k⟩ ⟨hi, hj, hk⟩
    simp only at hi hj hk
    simp only [c1xNum, Set.mem_ofPred_eq]
    omega
  · intro n hn
    simp only [Set.mem_ofPred_eq] at hn ⊢
    omega

theorem own_channel_iff {i j : Nat} (hi : i < 3) (hj : j < 7) :
    (∃ k < 3, i * 3 + j = c1xNum i j k) ↔ i = j := by
  simp only [c1xNum]
  constructor
  · rintro ⟨k, hk, h⟩
    omega
  · intro h
    exact ⟨0, by omega, by omega⟩

theorem sharesRate_diagonal (slink : Nat → SlinkInfo) {i : Nat} (hi : i < 3) :
    SharesRate slink i i := by
  obtain ⟨k, hk, h⟩ := (own_channel_iff hi (by omega : i < 7)).mpr rfl
  exact ⟨k, hk, by rw [h]⟩

section Run

variable {c : Common} {results : Results}

theorem play_channels {R : Type} (port : UInt8) (finish : List SlinkInfo → Calls R)
    (err : Unit → Calls R) (entry : Nat → SlinkInfo) (n k : Nat) (slink : List SlinkInfo)
    (results : Results)
    (h : ∀ i < n, results i (.slinkInfo (port - 1) (.ofNat (k + i))) = (0, entry (k + i))) :
    (((each (payloadLpRound port) (List.range' k n) slink).bind (Sum.elim finish err)).play
        results).2 =
      ((finish (slink ++ (List.range' k n).map entry)).play fun m => results (m + n)).2 := by
  induction n generalizing k slink results with
  | zero => rw [List.range'_zero, List.map_nil, List.append_nil]; rfl
  | succ n ih =>
      rw [Nat.forall_lt_succ_left] at h
      have hgo := ih (k + 1) (slink ++ [entry k]) (fun m => results (m + 1)) fun i hi => by
        rw [Nat.add_assoc, Nat.add_comm 1]
        exact h.2 i hi
      have hfirst : takeChannel slink (results 0 (.slinkInfo (port - 1) (.ofNat k))).1
          (results 0 (.slinkInfo (port - 1) (.ofNat k))).2 = .inl (slink ++ [entry k]) := by
        rw [show results 0 (.slinkInfo (port - 1) (.ofNat k)) = (0, entry k) from h.1]
        exact if_neg (not_not_intro rfl)
      rw [List.range'_succ, each_cons_bind, payloadLpRound]
      simp only [query, Script.bind, play, hfirst, Sum.elim_inl, hgo]
      rw [List.map_cons, List.append_assoc]
      rfl

theorem reported_eq {info : PayloadLpinfo} (h : ReadsChannels c results info.id) :
    reported c results info =
      fillTug3s c ((List.range c.channelMaxnum.toNat).map (channel results info.id))
        { info with type := c.protocolTug, tug3sNum := c.tug3Maxnum } := by
  have hueq : (results 0 (.slinkInfoHp (info.id - 1))).2.c2Val ≠ 0x00 := by
    rw [h.tug]
    decide
  rw [reported, getPayloadLp, if_neg (not_not_intro rfl), play, if_neg (not_not_intro h.hp),
    if_neg hueq, if_pos h.tug, play, if_neg (not_not_intro h.start), List.range_eq_range']
  simp only
  rw [play_channels info.id _ _ (channel results info.id)]
  · rfl
  · intro i hi
    rw [Nat.zero_add]
    exact Prod.ext (h.read i hi) rfl

end Run

theorem fill_of_lt {α : Type} {n : UInt8} {i : Nat} (hi : i < n.toNat) (set : Nat → α → α)
    (old : Nat → α) : fill n set old i = set i (old i) := if_pos hi

theorem entry_of_lt (slink : Nat → SlinkInfo) {n : Nat} (hn : n < 63) :
    ((List.range 63).map slink).getD (n % 256) default = slink n := by
  rw [Nat.mod_eq_of_lt (by omega), List.getD_eq_getElem?_getD,
    List.getElem?_map, List.getElem?_range hn]
  rfl

theorem fillTug3s_tug3 {c : Common} {slink : List SlinkInfo} {info : PayloadLpinfo} {i : Nat}
    (hi : i < info.tug3sNum.toNat) : (fillTug3s c slink info).tug3s i =
      ⟨.ofNat (i + 1), c.protocolTug, c.tug2Maxnum, fill c.tug2Maxnum
        (fun j tug2 => ⟨.ofNat (j + 1),
          (slink.getD ((i * c.tug3Maxnum.toNat + j) % 256) default).channelRate, c.c1xMaxnum,
          fill c.c1xMaxnum (fun k _ => ⟨.ofNat (k + 1),
            (slink.getD ((i + j * 3 + k * 21) % 256) default).svcType, 0⟩) tug2.c1xs⟩)
        (info.tug3s i).tug2s⟩ := by
  simp only [fillTug3s]
  exact fill_of_lt hi _ _

theorem fillTug3s_tug2 {c : Common} (hc : Sdh c) (slink : Nat → SlinkInfo) (info : PayloadLpinfo)
    (hinfo : info.tug3sNum = 3) {i j : Nat} (hi : i < 3) (hj : j < 7) :
    (((fillTug3s c ((List.range 63).map slink) info).tug3s i).tug2s j).type =
        (slink (i * 3 + j)).channelRate ∧
      (((fillTug3s c ((List.range 63).map slink) info).tug3s i).tug2s j).c1xsNum = 3 ∧
      ∀ k < 3, ((((fillTug3s c ((List.range 63).map slink) info).tug3s i).tug2s j).c1xs k).type =
        (slink (c1xNum i j k)).svcType := by
  rw [fillTug3s_tug3 (hinfo ▸ hi), hc.tug2s, hc.c1xs, hc.tug3s]
  simp only
  rw [fill_of_lt hj]
  refine ⟨?_, rfl, fun k hk => ?_⟩
  · exact congrArg SlinkInfo.channelRate (entry_of_lt slink (by omega : i * 3 + j < 63))
  · simp only
    rw [fill_of_lt hk]
    exact congrArg SlinkInfo.svcType (entry_of_lt slink (by omega : i + j * 3 + k * 21 < 63))

/-- The tree is compatible with its channels when each TUG-2 off the diagonal has a channel of
the rate of channel `3i + j`, which is below another TUG-2. -/
theorem compatible_iff {c : Common} (hc : Sdh c) (slink : Nat → SlinkInfo) (info : PayloadLpinfo)
    (hinfo : info.tug3sNum = 3) :
    Compatible slink (fillTug3s c ((List.range 63).map slink) info) ↔
      ∀ i < 3, ∀ j < 7, i ≠ j → SharesRate slink i j := by
  constructor
  · intro h i hi j hj _
    obtain ⟨k, hk, hrate⟩ := h.rates i hi j hj
    rw [(fillTug3s_tug2 hc slink info hinfo hi hj).1] at hrate
    exact ⟨k, hk, hrate⟩
  · intro h
    refine ⟨hinfo, fun i hi => ?_, fun i hi j hj => ?_, fun i hi j hj k hk => ?_, fun i hi j hj => ?_⟩
    · rw [fillTug3s_tug3 (hinfo ▸ hi)]
      exact hc.tug2s
    · exact (fillTug3s_tug2 hc slink info hinfo hi hj).2.1
    · exact (fillTug3s_tug2 hc slink info hinfo hi hj).2.2 k hk
    · rw [(fillTug3s_tug2 hc slink info hinfo hi hj).1]
      by_cases hij : i = j
      · subst hij
        exact sharesRate_diagonal slink hi
      · exact h i hi j hj hij

theorem reported_compatible_iff {c : Common} (hc : Sdh c) {results : Results}
    {info : PayloadLpinfo} (h : ReadsChannels c results info.id) :
    Compatible (channel results info.id) (reported c results info) ↔
      ∀ i < 3, ∀ j < 7, i ≠ j → SharesRate (channel results info.id) i j := by
  rw [reported_eq h, hc.channels]
  exact compatible_iff hc _ _ hc.tug3s

/-- The places of the channels are one to one, and the rates fit exactly when the channels that
they are taken from share them. -/
theorem payload_tree_iff {c : Common} (hc : Sdh c) {results : Results} {info : PayloadLpinfo}
    (h : ReadsChannels c results info.id) :
    Set.BijOn (fun p : Nat × Nat × Nat => c1xNum p.1 p.2.1 p.2.2)
        {p | p.1 < 3 ∧ p.2.1 < 7 ∧ p.2.2 < 3} {n | n < 63} ∧
      (Compatible (channel results info.id) (reported c results info) ↔
        ∀ i < 3, ∀ j < 7, i ≠ j → SharesRate (channel results info.id) i j) :=
  ⟨c1xNum_bijOn, reported_compatible_iff hc h⟩

theorem stm64_sdh : Sdh stm64 := ⟨rfl, rfl, rfl, rfl⟩

/-- A port with tributaries. The channels of one TUG-2 are C11, all others C12. -/
def oneC11 : Results
  | _, .slinkInfoStart | _, .slinkInfoEnd => (0 : Int)
  | _, .slinkInfo _ channel =>
      (0, { (default : SlinkInfo) with channelRate := if channel % 21 = 1 then 3 else 2 })
  | _, .slinkInfoHp _ => (0, { (default : PortEx) with c2Val := 2 })
  | _, .bdRuninfoEx _ => (0, default)

theorem oneC11_reads (port : UInt8) : ReadsChannels stm64 oneC11 port :=
  ⟨rfl, rfl, rfl, fun _ _ => rfl⟩

def portOne : PayloadLpinfo := ⟨1, 0, 0, fun _ => ⟨0, 0, 0, fun _ => ⟨0, 0, 0, fun _ => ⟨0, 0, 0⟩⟩⟩⟩

theorem payload_tree_iff_oneC11 :
    Set.BijOn (fun p : Nat × Nat × Nat => c1xNum p.1 p.2.1 p.2.2)
        {p | p.1 < 3 ∧ p.2.1 < 7 ∧ p.2.2 < 3} {n | n < 63} ∧
      (Compatible (channel oneC11 1) (reported stm64 oneC11 portOne) ↔
        ∀ i < 3, ∀ j < 7, i ≠ j → SharesRate (channel oneC11 1) i j) :=
  @payload_tree_iff stm64 stm64_sdh oneC11 portOne (oneC11_reads 1)

/-- TUG-2 1 of TUG-3 0 gets the rate of channel 1, which is below TUG-2 0 of TUG-3 1. -/
theorem rate_of_another_tug2 :
    ¬∀ (c : Common) (results : Results) (info : PayloadLpinfo), Sdh c →
      ReadsChannels c results info.id →
      Compatible (channel results info.id) (reported c results info) := by
  intro h
  have hcompatible := h stm64 oneC11 portOne stm64_sdh (oneC11_reads 1)
  obtain ⟨k, hk, hrate⟩ := (reported_compatible_iff stm64_sdh (oneC11_reads 1)).mp hcompatible
    0 (by decide) 1 (by decide) (by decide)
  match k with
  | 0 | 1 | 2 => exact absurd hrate (by decide)
  | k + 3 => omega

end OiAmc.PayloadTree
