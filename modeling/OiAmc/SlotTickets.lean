import Mathlib.Data.List.Nodup
import OiAmc.Arena

/-! Slots that hold the addresses of records, where each record in a slot has one ticket in a
list of its own, as a timer or a lease is one. -/

namespace OiAmc.SlotTickets

open Arena

variable {ρ τ κ : Type} {index : ρ → Nat} {ticket : ρ → Option κ} {name : τ → κ} {owner : τ → Nat}
  {slots : List (Option Nat)} {pool pool' : Pool ρ} {ts us : List τ} {t u : τ} {r r' : ρ}
  {a i : Nat}

/-- The records in slots and the tickets belong together, one to one. -/
structure Held (index : ρ → Nat) (ticket : ρ → Option κ) (name : τ → κ) (owner : τ → Nat)
    (slots : List (Option Nat)) (pool : Pool ρ) (ts : List τ) : Prop where
  names : (ts.map name).Nodup
  slot : ∀ i a, slots[i]? = some (some a) → ∃ r, pool.get a = some r ∧ index r = i ∧
    ∃ t ∈ ts, owner t = a
  ticket : ∀ t ∈ ts, ∃ r, pool.get (owner t) = some r ∧ slots[index r]? = some (some (owner t)) ∧
    ticket r = some (name t)

theorem held_empty (n : Nat) :
    Held index ticket name owner (List.replicate n none) pool [] where
  names := List.nodup_nil
  slot i a ha := by
    rw [List.getElem?_replicate] at ha
    split at ha <;> cases ha
  ticket _ ht := absurd ht List.not_mem_nil

theorem Held.perm (h : Held index ticket name owner slots pool ts) (hp : ts.Perm us) :
    Held index ticket name owner slots pool us where
  names := (hp.map name).nodup_iff.mp h.names
  slot i a ha := by
    obtain ⟨r, hr, hi, t, ht, howner⟩ := h.slot i a ha
    exact ⟨r, hr, hi, t, hp.mem_iff.mp ht, howner⟩
  ticket t ht := h.ticket t (hp.mem_iff.mpr ht)

theorem Held.of_pool (h : Held index ticket name owner slots pool ts) (hget : pool'.get = pool.get) :
    Held index ticket name owner slots pool' ts where
  names := h.names
  slot i a ha := hget ▸ h.slot i a ha
  ticket t ht := hget ▸ h.ticket t ht

/-- Two tickets of one record are the same one. -/
theorem Held.owner_inj (h : Held index ticket name owner slots pool ts) (ht : t ∈ ts) (hu : u ∈ ts)
    (howner : owner t = owner u) : t = u := by
  obtain ⟨r, hr, -, hname⟩ := h.ticket t ht
  obtain ⟨r', hr', -, hname'⟩ := h.ticket u hu
  rw [howner, hr', Option.some.injEq] at hr
  subst hr
  rw [hname', Option.some.injEq] at hname
  exact (List.inj_on_of_nodup_map h.names hu ht hname).symm

theorem Held.ticket_of_slot (h : Held index ticket name owner slots pool ts)
    (ha : slots[i]? = some (some a)) : ∃ r t, pool.get a = some r ∧ index r = i ∧ t ∈ ts ∧
      owner t = a ∧ ticket r = some (name t) := by
  obtain ⟨r, hr, hi, t, ht, howner⟩ := h.slot i a ha
  obtain ⟨r', hr', -, hname⟩ := h.ticket t ht
  rw [howner, hr, Option.some.injEq] at hr'
  exact ⟨r, t, hr, hi, ht, howner, hr' ▸ hname⟩

theorem Held.owners_eq (h : Held index ticket name owner slots pool ts) (ht : t ∈ ts) :
    (ts.filter fun u => decide (owner u = owner t)) = [t] := by
  classical
  have hsame : (ts.filter fun u => decide (owner u = owner t)) = ts.filter fun u => decide (u = t) := by
    refine List.filter_congr fun u hu => ?_
    rw [decide_eq_decide]
    exact ⟨h.owner_inj hu ht, congrArg owner⟩
  have hcount := List.count_eq_one_of_mem (List.Nodup.of_map name h.names) ht
  rw [hsame, List.filter_eq, hcount, List.replicate_one]

theorem ne_next (h : pool.get a = some r) : a ≠ pool.next :=
  Nat.ne_of_lt (lt_next (by rw [h]; exact Option.some_ne_none r))

theorem Held.put (h : Held index ticket name owner slots pool ts) (hindex : index r = i)
    (hfree : slots[i]? = some none) (hnew : name t ∉ ts.map name)
    (howner : owner t = pool.next) (hticket : ticket r = some (name t))
    (hget : pool'.get = Function.update pool.get pool.next (some r)) :
    Held index ticket name owner (slots.set i (some pool.next)) pool' (t :: ts) where
  names := List.nodup_cons.mpr ⟨hnew, h.names⟩
  slot j a ha := by
    rw [hget]
    obtain ⟨hlt, -⟩ := List.getElem?_eq_some_iff.mp hfree
    by_cases hi : i = j
    · subst hi
      rw [List.getElem?_set_self hlt, Option.some.injEq, Option.some.injEq] at ha
      subst ha
      exact ⟨r, Function.update_self .., hindex, t, List.mem_cons_self, howner⟩
    · rw [List.getElem?_set_ne hi] at ha
      obtain ⟨r', hr', hi', u, hu, hu'⟩ := h.slot j a ha
      refine ⟨r', ?_, hi', u, List.mem_cons_of_mem _ hu, hu'⟩
      rw [Function.update_of_ne (ne_next hr'), hr']
  ticket u hu := by
    rw [hget]
    obtain ⟨hlt, -⟩ := List.getElem?_eq_some_iff.mp hfree
    rcases List.mem_cons.mp hu with rfl | hu
    · refine ⟨r, ?_, ?_, hticket⟩
      · rw [howner, Function.update_self]
      · rw [hindex, List.getElem?_set_self hlt, howner]
    · obtain ⟨r', hr', hslot, hname⟩ := h.ticket u hu
      refine ⟨r', by rw [Function.update_of_ne (ne_next hr'), hr'], ?_, hname⟩
      rwa [List.getElem?_set_ne]
      intro hi
      rw [← hi, hfree] at hslot
      cases hslot

theorem Held.drop (h : Held index ticket name owner slots pool (t :: ts)) (hindex : index r = i)
    (hr : pool.get (owner t) = some r)
    (hget : pool'.get = Function.update pool.get (owner t) none) :
    Held index ticket name owner (slots.set i none) pool' ts where
  names := (List.nodup_cons.mp h.names).2
  slot j a ha := by
    rw [hget]
    by_cases hi : i = j
    · subst hi
      rw [List.getElem?_set] at ha
      split at ha <;> [(split at ha <;> cases ha); contradiction]
    · rw [List.getElem?_set_ne hi] at ha
      obtain ⟨r', hr', hi', u, hu, hu'⟩ := h.slot j a ha
      have hne : a ≠ owner t := by
        rintro rfl
        rw [hr, Option.some.injEq] at hr'
        exact hi (hindex ▸ hr' ▸ hi')
      refine ⟨r', by rw [Function.update_of_ne hne, hr'], hi', u, ?_, hu'⟩
      rcases List.mem_cons.mp hu with rfl | hu
      · exact absurd hu'.symm hne
      · exact hu
  ticket u hu := by
    rw [hget]
    obtain ⟨r', hr', hslot, hname⟩ := h.ticket u (List.mem_cons_of_mem _ hu)
    have hne : owner u ≠ owner t := by
      intro howner
      have hsame := h.owner_inj (List.mem_cons_of_mem _ hu) List.mem_cons_self howner
      exact (List.nodup_cons.mp h.names).1 (hsame ▸ List.mem_map_of_mem hu)
    refine ⟨r', by rw [Function.update_of_ne hne, hr'], ?_, hname⟩
    rwa [List.getElem?_set_ne]
    intro hi
    obtain ⟨r'', hr'', hslot', -⟩ := h.ticket t List.mem_cons_self
    rw [hr, Option.some.injEq] at hr''
    subst hr''
    rw [hindex, hi, hslot, Option.some.injEq, Option.some.injEq] at hslot'
    exact hne hslot'

theorem Held.renew (h : Held index ticket name owner slots pool (t :: ts))
    (hr : pool.get (owner t) = some r) (howner : owner u = owner t)
    (hnew : name u ∉ ts.map name) (hindex : index r' = index r) (hticket : ticket r' = some (name u))
    (hget : pool'.get = Function.update pool.get (owner t) (some r')) :
    Held index ticket name owner slots pool' (u :: ts) where
  names := List.nodup_cons.mpr ⟨hnew, (List.nodup_cons.mp h.names).2⟩
  slot i a ha := by
    rw [hget]
    obtain ⟨s, hs, hi, v, hv, hv'⟩ := h.slot i a ha
    by_cases hne : a = owner t
    · subst hne
      rw [hr, Option.some.injEq] at hs
      subst hs
      exact ⟨r', Function.update_self .., hindex.trans hi, u, List.mem_cons_self, howner⟩
    · refine ⟨s, by rw [Function.update_of_ne hne, hs], hi, v, ?_, hv'⟩
      rcases List.mem_cons.mp hv with rfl | hv
      · exact absurd hv'.symm hne
      · exact List.mem_cons_of_mem _ hv
  ticket v hv := by
    rw [hget]
    rcases List.mem_cons.mp hv with rfl | hv
    · obtain ⟨s, hs, hslot, -⟩ := h.ticket t List.mem_cons_self
      rw [hr, Option.some.injEq] at hs
      subst hs
      rw [howner]
      exact ⟨r', Function.update_self .., hindex ▸ hslot, hticket⟩
    · obtain ⟨s, hs, hslot, hname⟩ := h.ticket v (List.mem_cons_of_mem _ hv)
      have hne : owner v ≠ owner t := by
        intro hsame
        have heq := h.owner_inj (List.mem_cons_of_mem _ hv) List.mem_cons_self hsame
        exact (List.nodup_cons.mp h.names).1 (heq ▸ List.mem_map_of_mem hv)
      exact ⟨s, by rw [Function.update_of_ne hne, hs], hslot, hname⟩

theorem countP_isSome_put (h : slots[i]? = some none) :
    (slots.set i (some a)).countP Option.isSome = slots.countP Option.isSome + 1 := by
  obtain ⟨hlt, hnone⟩ := List.getElem?_eq_some_iff.mp h
  rw [List.countP_set hlt, hnone]
  rfl

theorem countP_isSome_drop (h : slots[i]? = some (some a)) :
    (slots.set i none).countP Option.isSome + 1 = slots.countP Option.isSome := by
  obtain ⟨hlt, hsome⟩ := List.getElem?_eq_some_iff.mp h
  have hpos : 0 < slots.countP Option.isSome :=
    List.countP_pos_iff.mpr ⟨_, List.mem_of_getElem? h, rfl⟩
  rw [List.countP_set hlt, hsome]
  exact Nat.sub_add_cancel hpos

end OiAmc.SlotTickets
