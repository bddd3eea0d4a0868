import Mathlib.Data.List.Basic

namespace OiAmc.SelfSync

variable {d : Nat} {hist xs ys : List Bool} {x : Bool}

/-- A stream that goes on behind hist, each bit added to the one d bits earlier. -/
def descrambleBits (d : Nat) (hist xs : List Bool) : List Bool :=
  List.zipWith xor xs ((hist ++ xs).drop (hist.length - d))

/-- The bits that are sent, each one the sum of a bit and the one sent d bits earlier. -/
def scrambleBits (d : Nat) : List Bool → List Bool → List Bool
  | _, [] => []
  | hist, x :: xs =>
      let y := xor x (hist.getD (hist.length - d) false)
      y :: scrambleBits d (hist ++ [y]) xs

theorem length_descramble : (descrambleBits d hist xs).length = xs.length := by
  rw [descrambleBits, List.length_zipWith, List.length_drop, List.length_append]
  omega

theorem descramble_getElem? (h : d ≤ hist.length) {i : Nat} (hi : i < xs.length) :
    (descrambleBits d hist xs)[i]? = some (xor ((hist ++ xs).getD (hist.length + i) false)
      ((hist ++ xs).getD (hist.length + i - d) false)) := by
  have hsent : (hist ++ xs)[hist.length + i]? = some xs[i] := by
    rw [List.getElem?_append_right (Nat.le_add_right _ _), Nat.add_sub_cancel_left,
      List.getElem?_eq_getElem hi]
  have hlt : hist.length + i - d < (hist ++ xs).length := by
    rw [List.length_append]
    omega
  have hplace : hist.length - d + i = hist.length + i - d := by omega
  rw [descrambleBits, List.getElem?_zipWith, List.getElem?_drop, hplace,
    List.getElem?_eq_getElem hi, List.getElem?_eq_getElem hlt, List.getD_eq_getElem?_getD,
    List.getD_eq_getElem?_getD, hsent, List.getElem?_eq_getElem hlt]
  rfl

theorem descramble_recent (pre : List Bool) (h : d ≤ hist.length) :
    descrambleBits d (pre ++ hist) xs = descrambleBits d hist xs := by
  have hplace : (pre ++ hist).length - d = pre.length + (hist.length - d) := by
    rw [List.length_append]
    omega
  rw [descrambleBits, hplace, List.append_assoc, List.drop_length_add_append, descrambleBits]

theorem descramble_cons (h0 : 0 < d) (h : d ≤ hist.length) :
    descrambleBits d hist (x :: xs) =
      xor x (hist.getD (hist.length - d) false) :: descrambleBits d (hist ++ [x]) xs := by
  have hlt : hist.length - d < hist.length := by omega
  have hlt' : hist.length - d < (hist ++ x :: xs).length := by
    rw [List.length_append]
    omega
  have hnext : (hist ++ [x]).length - d = hist.length - d + 1 := by
    rw [List.length_append, List.length_singleton]
    omega
  rw [descrambleBits, List.drop_eq_getElem_cons hlt', List.zipWith_cons_cons,
    List.getElem_append_left hlt, descrambleBits, hnext, List.append_assoc, List.singleton_append,
    List.getD_eq_getElem?_getD, List.getElem?_eq_getElem hlt]
  rfl

theorem descramble_append (h0 : 0 < d) (h : d ≤ hist.length) :
    descrambleBits d hist (xs ++ ys) =
      descrambleBits d hist xs ++ descrambleBits d (hist ++ xs) ys := by
  induction xs generalizing hist with
  | nil => rw [List.nil_append, List.append_nil]; rfl
  | cons x xs ih =>
      have h' : d ≤ (hist ++ [x]).length := by
        rw [List.length_append]
        omega
      rw [List.cons_append, descramble_cons h0 h, descramble_cons h0 h, ih h', List.append_assoc]
      rfl

theorem descramble_scramble (h0 : 0 < d) (h : d ≤ hist.length) :
    descrambleBits d hist (scrambleBits d hist xs) = xs := by
  induction xs generalizing hist with
  | nil => rfl
  | cons x xs ih =>
      rw [scrambleBits, descramble_cons h0 h, ih, Bool.xor_assoc, Bool.xor_self, Bool.xor_false]
      rw [List.length_append]
      omega

end OiAmc.SelfSync
