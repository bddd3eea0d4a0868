import OiAmc.TimerMgr
import Mathlib.Data.Multiset.Basic
import Mathlib.Data.UInt

namespace OiAmc.TimerOffset

open RbTree TimerMgr

variable (ops : TimerOps) {tl : TimerList} {offsetS offsetNs : UInt32} {data : Nat}

def expireTime (entry : Timer) : Nat := entry.expireS.toNat * 1000000000 + entry.expireNs.toNat

def offsetTime (tl : TimerList) (offsetS offsetNs : UInt32) : Nat :=
  (tl.lastS.toNat + offsetS.toNat) * 1000000000 + (tl.lastNs.toNat + offsetNs.toNat)

def InsertsExact (tl : TimerList) (offsetS offsetNs : UInt32) (data : Nat) : Prop :=
  ∃ entry : Timer,
    (timerMgrAddTimerByOffset ops tl true offsetS offsetNs data).2 = some entry.addr ∧
    (timerMgrAddTimerByOffset ops tl true offsetS offsetNs data).1.rbtree.inorder.Perm
      (entry :: tl.rbtree.inorder) ∧
    entry.data = data ∧ entry.expireNs.toNat < 1000000000 ∧
    expireTime entry = offsetTime tl offsetS offsetNs

theorem link_perm {α : Type} (before : α → Bool) (x : α) (t : RbRoot α) :
    (t.link before x).1.inorder.Perm (x :: t.inorder) := by
  induction t with
  | leaf => exact List.Perm.refl _
  | node color left y right ihl ihr =>
      rw [RbRoot.link]
      split
      · exact ihl.append_right _
      · have hright : (left.inorder ++ y :: (right.link before x).1.inorder).Perm
            (left.inorder ++ y :: x :: right.inorder) := (ihr.cons y).append_left _
        have hswap : (left.inorder ++ y :: x :: right.inorder).Perm
            (left.inorder ++ x :: y :: right.inorder) := (List.Perm.swap x y _).append_left _
        exact hright.trans (hswap.trans List.perm_middle)

theorem insert_perm (tl : TimerList) (entry : Timer) :
    (timerMgrInsertTimer ops tl entry).rbtree.inorder.Perm (entry :: tl.rbtree.inorder) := by
  have hlink := link_perm
    (fun current => timeDiff current.expireS current.expireNs entry.expireS entry.expireNs < 0)
    entry tl.rbtree
  rw [timerMgrInsertTimer]
  dsimp only
  rw [ops.inorder_insertColor _ entry (hlink.symm.subset List.mem_cons_self)]
  exact hlink

theorem carry_time (s ns : Nat) (h : 1000000000 ≤ ns) :
    (s + 1) * 1000000000 + (ns - 1000000000) = s * 1000000000 + ns := by
  omega

theorem carryNs_time (s ns : UInt32) (n : Nat)
    (hs : s.toNat * 1000000000 + ns.toNat < 2 ^ 32 * 1000000000) :
    (carryNs n s ns).1.toNat * 1000000000 + (carryNs n s ns).2.toNat =
      s.toNat * 1000000000 + ns.toNat := by
  induction n generalizing s ns with
  | zero => rfl
  | succ n ih =>
      rw [carryNs]
      by_cases hle : 1000000000 ≤ ns
      · have hle' : 1000000000 ≤ ns.toNat := hle
        have hs' : (s + 1).toNat = s.toNat + 1 := by
          rw [UInt32.toNat_add, UInt32.toNat_one]
          omega
        have hns' : (ns - 1000000000).toNat = ns.toNat - 1000000000 :=
          UInt32.toNat_sub_of_le _ _ hle
        have htime := carry_time s.toNat ns.toNat hle'
        have hmore := ih (s + 1) (ns - 1000000000) (by rw [hs', hns', htime]; exact hs)
        rw [hs', hns', htime] at hmore
        rw [if_pos hle, hmore]
      · rw [if_neg hle]

theorem carryNs_lt (s ns : UInt32) (n : Nat) (hns : ns.toNat < (n + 1) * 1000000000) :
    (carryNs n s ns).2.toNat < 1000000000 := by
  induction n generalizing s ns with
  | zero =>
      rw [carryNs]
      omega
  | succ n ih =>
      rw [carryNs]
      by_cases hle : 1000000000 ≤ ns
      · have hns' : (ns - 1000000000).toNat = ns.toNat - 1000000000 :=
          UInt32.toNat_sub_of_le _ _ hle
        rw [if_pos hle]
        exact ih _ _ (by rw [hns']; omega)
      · rw [if_neg hle]
        exact not_le.mp hle

def offsetTimer (tl : TimerList) (offsetS offsetNs : UInt32) (data : Nat) : Timer :=
  let r := carryNs 4 (tl.lastS + offsetS) (tl.lastNs + offsetNs)
  ⟨tl.fresh, 0, r.1, r.2, data⟩

theorem addTimerByOffset_eq (tl : TimerList) (offsetS offsetNs : UInt32) (data : Nat) :
    timerMgrAddTimerByOffset ops tl true offsetS offsetNs data =
      (timerMgrInsertTimer ops { tl with fresh := tl.fresh + 1 }
        (offsetTimer tl offsetS offsetNs data), some tl.fresh) := by
  rw [timerMgrAddTimerByOffset, offsetTimer]
  generalize carryNs 4 (tl.lastS + offsetS) (tl.lastNs + offsetNs) = r
  rfl

theorem addTimerByOffset_perm (tl : TimerList) (offsetS offsetNs : UInt32) (data : Nat) :
    (timerMgrAddTimerByOffset ops tl true offsetS offsetNs data).1.rbtree.inorder.Perm
      (offsetTimer tl offsetS offsetNs data :: tl.rbtree.inorder) := by
  rw [addTimerByOffset_eq]
  exact insert_perm ops { tl with fresh := tl.fresh + 1 } _

theorem offsetTimer_lt : (offsetTimer tl offsetS offsetNs data).expireNs.toNat < 1000000000 := by
  have hlt := (tl.lastNs + offsetNs).toNat_lt
  rw [offsetTimer]
  dsimp only
  exact carryNs_lt _ _ 4 (by omega)

theorem offsetTimer_time (hfits : offsetTime tl offsetS offsetNs < 2 ^ 32 * 1000000000) :
    expireTime (offsetTimer tl offsetS offsetNs data) +
        (tl.lastNs.toNat + offsetNs.toNat) / 2 ^ 32 * 2 ^ 32 = offsetTime tl offsetS offsetNs := by
  have hs : (tl.lastS + offsetS).toNat = tl.lastS.toNat + offsetS.toNat := by
    rw [offsetTime] at hfits
    rw [UInt32.toNat_add]
    omega
  have hns : (tl.lastNs + offsetNs).toNat + (tl.lastNs.toNat + offsetNs.toNat) / 2 ^ 32 * 2 ^ 32 =
      tl.lastNs.toNat + offsetNs.toNat := by
    rw [UInt32.toNat_add]
    omega
  have htime := carryNs_time (tl.lastS + offsetS) (tl.lastNs + offsetNs) 4
    (by rw [offsetTime] at hfits; rw [hs]; omega)
  rw [hs] at htime
  calc expireTime (offsetTimer tl offsetS offsetNs data) +
          (tl.lastNs.toNat + offsetNs.toNat) / 2 ^ 32 * 2 ^ 32
      = (tl.lastS.toNat + offsetS.toNat) * 1000000000 + ((tl.lastNs + offsetNs).toNat +
          (tl.lastNs.toNat + offsetNs.toNat) / 2 ^ 32 * 2 ^ 32) := by
        rw [← Nat.add_assoc, ← htime]
        rfl
    _ = offsetTime tl offsetS offsetNs := by rw [hns, offsetTime]

/-- The sum of the nanoseconds is taken in 32 bits, before whole seconds are carried over. -/
theorem inserts_exact_iff (tl : TimerList) (offsetS offsetNs : UInt32) (data : Nat)
    (hfits : offsetTime tl offsetS offsetNs < 2 ^ 32 * 1000000000) :
    InsertsExact ops tl offsetS offsetNs data ↔ tl.lastNs.toNat + offsetNs.toNat < 2 ^ 32 := by
  have htime := @offsetTimer_time tl offsetS offsetNs data hfits
  have hperm := addTimerByOffset_perm ops tl offsetS offsetNs data
  constructor
  · rintro ⟨entry, -, hentry, -, -, hexact⟩
    have hsame := Multiset.coe_eq_coe.mpr (hperm.symm.trans hentry)
    rw [← Multiset.cons_coe, ← Multiset.cons_coe, Multiset.cons_inj_left] at hsame
    rw [hsame] at htime
    omega
  · intro hsum
    refine ⟨offsetTimer tl offsetS offsetNs data, ?_, hperm, rfl, ?_, ?_⟩
    · rw [addTimerByOffset_eq]
      rfl
    · exact offsetTimer_lt
    · rwa [Nat.div_eq_of_lt hsum, Nat.zero_mul, Nat.add_zero] at htime

def lateList : TimerList := ⟨.external, 100, 999999999, 0, .leaf, none, 0⟩

theorem inserts_exact_late : InsertsExact (plainOps Timer.addr) lateList 2 1500000000 7 ↔
    lateList.lastNs.toNat + (1500000000 : UInt32).toNat < 2 ^ 32 :=
  inserts_exact_iff (plainOps Timer.addr) lateList 2 1500000000 7 (by decide)

/-- The largest offset is cut short by more than four seconds. -/
theorem offset_sum_wraps : ¬ ∀ (tl : TimerList) (offsetS offsetNs : UInt32) (data : Nat),
    tl.lastNs.toNat < 1000000000 → offsetTime tl offsetS offsetNs < 2 ^ 32 * 1000000000 →
      InsertsExact (plainOps Timer.addr) tl offsetS offsetNs data := by
  intro h
  obtain ⟨entry, -, hperm, -, -, hexact⟩ := h lateList 0 4294967295 7 (by decide) (by decide)
  have heval : (timerMgrAddTimerByOffset (plainOps Timer.addr) lateList true 0 4294967295 7).1.rbtree.inorder =
      [⟨0, 0, 100, 999999998, 7⟩] := rfl
  rw [heval] at hperm
  obtain rfl := List.singleton_perm_singleton.mp hperm
  exact absurd hexact (by decide)

end OiAmc.TimerOffset
