import OiAmc.GrpsmGet
import OiAmc.PartialLists
import Mathlib.Algebra.BigOperators.Ring.List
import Mathlib.Tactic.Ring

namespace OiAmc.GrpsmProduct

open GrpsmLinks GrpsmSearch

def product (cands : List (List LinkPtr)) : Nat := (cands.map List.length).prod

theorem setChannels_row (t : ChannelTable) (b cm i : Nat) (hcm : 0 < cm) (ch : GroupChannel)
    (g i' : Nat) :
    (List.range cm).foldl (fun t l => setChannel t (b * cm + l) i ch) t g i' =
      if i' = i ∧ g / cm = b then ch else t g i' := by
  have h (n : Nat) : (List.range n).foldl (fun t l => setChannel t (b * cm + l) i ch) t g i' =
      if i' = i ∧ b * cm ≤ g ∧ g < b * cm + n then ch else t g i' := by
    induction n with
    | zero =>
        have hno : ¬ (i' = i ∧ b * cm ≤ g ∧ g < b * cm + 0) := by omega
        rw [if_neg hno, List.range_zero, List.foldl_nil]
    | succ n ih =>
        rw [List.range_succ, List.foldl_append, List.foldl_cons, List.foldl_nil, setChannel, ih]
        split_ifs <;> first | rfl | omega
  rw [h cm]
  have hdiv : g / cm = b ↔ b * cm ≤ g ∧ g < b * cm + cm := by
    rw [Nat.div_eq_iff hcm]
    omega
  simp only [hdiv]

def pick (ls : List LinkPtr) (n : Nat) (ch : GroupChannel) : GroupChannel :=
  (ls[n]?.map fun p => channelOf p.link).getD ch

theorem setChannels_links (t : ChannelTable) (cm i : Nat) (hcm : 0 < cm) (ls : List LinkPtr)
    (b k : Nat) (g i' : Nat) :
    (ls.zipIdx k).foldl (fun t pk => (List.range cm).foldl (fun t l =>
        setChannel t ((b + pk.2) * cm + l) i (channelOf pk.1.link)) t) t g i' =
      if i' = i ∧ b + k ≤ g / cm then pick ls (g / cm - (b + k)) (t g i') else t g i' := by
  induction ls generalizing t k with
  | nil => simp [pick]
  | cons p ls ih =>
      rw [List.zipIdx_cons, List.foldl_cons, ih, setChannels_row t (b + k) cm i hcm]
      by_cases hi : i' = i
      · rcases Nat.lt_trichotomy (g / cm) (b + k) with hq | hq | hq
        · rw [if_neg (by omega), if_neg (by omega), if_neg (by omega)]
        · rw [if_neg (by omega), if_pos ⟨hi, hq⟩, if_pos ⟨hi, hq.ge⟩, hq, Nat.sub_self]
          rfl
        · obtain ⟨d, hd⟩ : ∃ d, g / cm = b + k + 1 + d := ⟨g / cm - (b + k + 1), by omega⟩
          have h1 : g / cm - (b + (k + 1)) = d := by omega
          have h2 : g / cm - (b + k) = d + 1 := by omega
          rw [if_pos ⟨hi, by omega⟩, if_neg (by omega), if_pos ⟨hi, hq.le⟩, h1, h2]
          simp [pick]
      · simp [hi]

/-- What the triple loop of one level writes: the groups below times * num * cm
get, in the slot of the level, the candidate their digit selects. -/
theorem fillLevel_apply (times cm i : Nat) (hcm : 0 < cm) (ls : List LinkPtr) (t : ChannelTable)
    (g i' : Nat) :
    fillLevel times cm i ls t g i' =
      if i' = i ∧ g / cm < times * ls.length then pick ls (g / cm % ls.length) (t g i')
      else t g i' := by
  rw [fillLevel]
  induction times with
  | zero => simp
  | succ n ih =>
      rw [List.range_succ, List.foldl_append, List.foldl_cons, List.foldl_nil]
      rw [setChannels_links _ cm i hcm ls (n * ls.length) 0 g i', ih, Nat.add_zero, Nat.succ_mul]
      by_cases hi : i' = i
      · by_cases hlow : g / cm < n * ls.length
        · rw [if_neg (by omega), if_pos ⟨hi, hlow⟩, if_pos ⟨hi, by omega⟩]
        · have hmul : n * ls.length = ls.length * n := Nat.mul_comm _ _
          obtain ⟨d, hd⟩ : ∃ d, g / cm = d + ls.length * n := ⟨g / cm - ls.length * n, by omega⟩
          rw [if_pos ⟨hi, by omega⟩, if_neg (by omega), hd, Nat.add_mul_mod_self_left, hmul,
            Nat.add_sub_cancel]
          by_cases hd' : d < ls.length
          · rw [if_pos ⟨hi, by omega⟩, Nat.mod_eq_of_lt hd']
          · rw [if_neg (by omega)]
            simp [pick, Nat.le_of_not_lt hd']
      · simp [hi]

theorem product_pos {cands : List (List LinkPtr)} (hne : ∀ c ∈ cands, c ≠ []) :
    0 < product cands := by
  apply Nat.pos_of_ne_zero
  intro h0
  obtain ⟨d, hd, h0⟩ := List.mem_map.mp (List.prod_eq_zero_iff.mp h0)
  exact hne d hd (List.length_eq_zero_iff.mp h0)

@[simp] theorem product_cons (c : List LinkPtr) (cs : List (List LinkPtr)) :
    product (c :: cs) = c.length * product cs := by
  simp [product]

theorem fillLevels_low {total : Nat} (cands : List (List LinkPtr)) (i cm : Nat) (t : ChannelTable)
    (hcm : 0 < cm) (hne : ∀ c ∈ cands, c ≠ []) (g : Nat) {i' : Nat} (hi : i' < i) :
    fillLevels total i cm cands t g i' = t g i' := by
  induction cands generalizing i cm t with
  | nil => rfl
  | cons ls cs ih =>
      have hcm' : 0 < cm * ls.length := Nat.mul_pos hcm (List.length_pos_iff.mpr (hne ls (by simp)))
      rw [fillLevels, ih (i + 1) _ _ hcm' (fun d hd => hne d (by simp [hd])) (by omega),
        fillLevel_apply _ _ _ hcm, if_neg (by omega)]

theorem fillLevels_head {total g : Nat} (ls : List LinkPtr) (cs : List (List LinkPtr)) (i cm : Nat)
    (t : ChannelTable) (hcm : 0 < cm) (hne : ∀ c ∈ ls :: cs, c ≠ [])
    (htotal : cm * product (ls :: cs) = total) (hg : g < total) (hdigit : g / cm % ls.length < ls.length) :
    fillLevels total i cm (ls :: cs) t g i = channelOf ls[g / cm % ls.length].link := by
  have hcm' : 0 < cm * ls.length := Nat.mul_pos hcm (List.length_pos_iff.mpr (hne ls (by simp)))
  rw [product_cons, ← Nat.mul_assoc] at htotal
  have hquot : g / cm < total / (cm * ls.length) * ls.length := by
    rw [Nat.div_lt_iff_lt_mul hcm, ← htotal, Nat.mul_div_cancel_left _ hcm']
    calc g < total := hg
      _ = product cs * ls.length * cm := by rw [← htotal]; ring
  rw [fillLevels, fillLevels_low cs (i + 1) _ _ hcm' (fun d hd => hne d (by simp [hd])) g i.lt_succ_self,
    fillLevel_apply _ _ _ hcm, if_pos ⟨rfl, hquot⟩, pick, List.getElem?_eq_getElem hdigit]
  rfl

theorem fillLevels_mem {total g : Nat} (cands : List (List LinkPtr)) (i cm : Nat) (t : ChannelTable)
    (hcm : 0 < cm) (hne : ∀ c ∈ cands, c ≠ []) (htotal : cm * product cands = total) (hg : g < total)
    (n : Nat) (hn : n < cands.length) : ∃ p ∈ cands.get ⟨n, hn⟩,
      fillLevels total i cm cands t g (i + n) = channelOf p.link := by
  induction cands generalizing i cm t n with
  | nil => exact absurd hn (Nat.not_lt_zero n)
  | cons ls cs ih =>
      have hlen : 0 < ls.length := List.length_pos_iff.mpr (hne ls (by simp))
      cases n with
      | zero =>
          have hdigit : g / cm % ls.length < ls.length := Nat.mod_lt _ hlen
          exact ⟨ls[g / cm % ls.length], List.getElem_mem hdigit,
            fillLevels_head ls cs i cm t hcm hne htotal hg hdigit⟩
      | succ n =>
          rw [product_cons, ← Nat.mul_assoc] at htotal
          obtain ⟨p, hp, he⟩ := ih (i + 1) (cm * ls.length)
            (fillLevel (total / (cm * ls.length)) cm i ls t) (Nat.mul_pos hcm hlen)
            (fun d hd => hne d (by simp [hd])) htotal n (by simpa using hn)
          refine ⟨p, hp, ?_⟩
          rw [← he, fillLevels]
          congr 1
          omega

theorem numGroups_eq {cands : List (List LinkPtr)} (hne : ∀ c ∈ cands, c ≠ []) :
    numGroups cands = if product cands ≤ intMax then some (product cands) else none := by
  have h (n : Nat) (hn : n ≤ intMax) : cands.foldlM (fun n c => if intMax < n * c.length then none
      else some (n * c.length)) n =
      if n * product cands ≤ intMax then some (n * product cands) else none := by
    induction cands generalizing n with
    | nil => simp [product, hn]
    | cons c cs ih =>
        have hpos := product_pos fun d hd => hne d (List.mem_cons_of_mem c hd)
        rw [List.foldlM_cons, product_cons, ← Nat.mul_assoc]
        by_cases hc : intMax < n * c.length
        · have hover : ¬ n * c.length * product cs ≤ intMax := by
            have := Nat.le_mul_of_pos_right (n * c.length) hpos
            omega
          rw [if_pos hc, if_neg hover]
          rfl
        · rw [if_neg hc]
          exact ih (fun d hd => hne d (List.mem_cons_of_mem c hd)) _ (by omega)
  have h1 := h 1 (by decide)
  rwa [Nat.one_mul] at h1

/-- The groups of a base link, when they have a defined outcome: there is at
least one, and each has one candidate from every level. -/
theorem grpsmCfgFromSqlinks_spec {cands : List (List LinkPtr)} {gs : List GroupCfg}
    (hne : ∀ c ∈ cands, c ≠ []) (h : grpsmCfgFromSqlinks cands = some gs) :
    gs.length = product cands ∧ ∀ g ∈ gs, g.chs.length = cands.length ∧
      ∀ n (hn : n < cands.length), ∃ p ∈ cands.get ⟨n, hn⟩,
        g.chs[n]? = some (channelOf p.link) := by
  obtain ⟨total, ht, h⟩ := Option.bind_eq_some_iff.mp h
  rw [numGroups_eq hne] at ht
  split at ht
  · cases ht
    rw [if_neg (product_pos hne).ne', Option.some.injEq] at h
    subst h
    refine ⟨by simp, fun g hg => ?_⟩
    obtain ⟨n, hn, rfl⟩ := List.mem_map.mp hg
    refine ⟨by simp, fun m hm => ?_⟩
    obtain ⟨p, hp, he⟩ := fillLevels_mem cands 0 1 (fun _ _ => ⟨0, 0, 0, 0⟩) Nat.one_pos hne
      (Nat.one_mul _) (List.mem_range.mp hn) m hm
    rw [Nat.zero_add] at he
    exact ⟨p, hp, by simp [hm, he]⟩
  · cases ht

end OiAmc.GrpsmProduct
