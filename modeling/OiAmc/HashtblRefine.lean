import OiAmc.Hashtbl
import Mathlib.Tactic.Ring
import Mathlib.Algebra.Order.Ring.Int

namespace OiAmc.HashtblRefine

open PartialMachine Buckets Hashtbl

variable {K V σ : Type} {hash : K → Nat → Nat} {cmp : K → K → Int} {release : Bool} {order n : Nat}
  {t : Table K V} {live l l' : List (Entry K V)} {e : Entry K V} {p : Entry K V → Bool} {b : Nat}

def place (hash : K → Nat → Nat) (order : Nat) (e : Entry K V) : Nat := hash e.key order

structure Stores (hash : K → Nat → Nat) (cmp : K → K → Int) (release : Bool) (order n : Nat)
    (t : Table K V) (live : List (Entry K V)) : Prop where
  hashFunc : t.ht.hashFunc = hash
  cmpFunc : t.ht.cmpFunc = cmp
  release : t.ht.release = release
  bits : t.ht.order = order
  buckets : t.ht.buckets = n
  heads : ∀ b < n, t.ht.heads b = bucket (place hash order) live b
  cnt : t.ht.cnt = live.length
  nodup : (live.map Entry.id).Nodup
  fresh : ∀ e ∈ live, e.id < t.entries

/-- What the users of a table have to see to. -/
structure Hashes (hash : K → Nat → Nat) (cmp : K → K → Int) (order n : Nat) : Prop where
  lt : ∀ k, hash k order < n
  eq : ∀ a b, cmp a b = 0 → hash a order = hash b order

theorem Hashes.equal (hh : Hashes hash cmp order n) {key : K} (x : Entry K V)
    (hx : decide (cmp key x.key = 0)) : place hash order x = hash key order :=
  (hh.eq key x.key (of_decide_eq_true hx)).symm

theorem takeOut_eq (p : Entry K V → Bool) (l : List (Entry K V)) :
    takeOut p l = (l.filter p).head?.map fun e => (e, l.eraseP p) := by
  induction l with
  | nil => rfl
  | cons e l ih =>
      by_cases he : p e
      · rw [takeOut, if_pos he, List.filter_cons_of_pos he, List.eraseP_cons_of_pos he]
        rfl
      · rw [takeOut, if_neg he, List.filter_cons_of_neg he, List.eraseP_cons_of_neg he, ih]
        cases (l.filter p).head? <;> rfl

theorem findLoop_eq (docmp : K → K → Int) (key : K) (i m : Nat) (l : List (Entry K V)) :
    findLoop docmp key ((i + m : Nat) : Int) i l =
      ((l.filter fun e => docmp key e.key = 0)[m]?).map Entry.value := by
  induction l generalizing i m with
  | nil => rfl
  | cons e l ih =>
      by_cases he : docmp key e.key = 0
      · rw [findLoop, if_pos he, List.filter_cons_of_pos (by simp [he])]
        cases m with
        | zero => simp
        | succ m =>
            rw [if_neg (by omega), List.getElem?_cons_succ]
            have hnext := ih (i + 1) m
            rw [Nat.add_right_comm, Nat.add_assoc] at hnext
            exact_mod_cast hnext
      · rw [findLoop, if_neg he, List.filter_cons_of_neg (by simp [he])]
        exact ih i m

theorem Stores.findSeq (hh : Hashes hash cmp order n) (h : Stores hash cmp release order n t live)
    (key : K) (i : Nat) :
    hashtblFindSeq t.ht key none i = ((live.filter fun e => cmp key e.key = 0)[i]?).map Entry.value := by
  have hlt := hh.lt key
  have hfind := findLoop_eq cmp key 0 i (t.ht.heads (hash key order))
  rw [Nat.zero_add, h.heads _ hlt, filter_bucket fun x hx => hh.equal x hx] at hfind
  rw [hashtblFindSeq, doHashtblFind, h.hashFunc, h.bits, h.buckets, if_neg (by omega), h.cmpFunc,
    h.heads _ hlt]
  exact hfind

theorem Stores.visits_perm (hh : Hashes hash cmp order n)
    (h : Stores hash cmp release order n t live) : (visits t.ht.heads t.ht.buckets).Perm live := by
  have heads : visits t.ht.heads n = (List.range n).flatMap (bucket (place hash order) live) := by
    rw [visits, List.flatMap_def, List.flatMap_def]
    apply congrArg
    apply List.map_congr_left
    intro b hb
    exact h.heads b (List.mem_range.mp hb)
  rw [h.buckets, heads]
  exact flatMap_bucket_perm_self fun e _ => hh.lt e.key

theorem Stores.insert (hh : Hashes hash cmp order n) (h : Stores hash cmp release order n t live)
    (key : K) (value : V) (mem : Bool) :
    ∃ t' o live', step t (.insert key value mem : Op K V σ) = some (t', o) ∧
      Does cmp release live (.insert key value mem : Op K V σ) o live' ∧
      Stores hash cmp release order n t' live' := by
  have hlt := hh.lt key
  have hid : t.entries ∉ live.map Entry.id := by
    intro hmem
    obtain ⟨e, he, heq⟩ := List.mem_map.mp hmem
    have hfresh := h.fresh e he
    omega
  have hnot : ¬ n ≤ hash key order := by omega
  cases mem with
  | false =>
      refine ⟨⟨t.ht, t.entries + 1⟩, _, live, ?_, .full live key value, ⟨h.hashFunc, h.cmpFunc,
        h.release, h.bits, h.buckets, h.heads, h.cnt, h.nodup, ?_⟩⟩
      · simp [step, hashtblInsert]
      · exact fun e he => Nat.lt_succ_of_lt (h.fresh e he)
  | true =>
      refine ⟨⟨{ t.ht.setHead (hash key order) (t.ht.heads (hash key order) ++ [⟨t.entries, key, value⟩])
        with cnt := t.ht.cnt + 1 }, t.entries + 1⟩, _, _, ?_, .insert live t.entries key value hid,
        ⟨h.hashFunc, h.cmpFunc, h.release, h.bits, h.buckets, ?_, ?_, ?_, ?_⟩⟩
      · simp only [step, hashtblInsert, h.hashFunc, h.bits, h.buckets, if_neg hnot, if_true]
      · intro b hb
        simp only [Handle.setHead, Function.update_apply]
        rw [bucket_append]
        by_cases heq : b = hash key order
        · rw [if_pos heq, heq, h.heads _ hlt]
          simp [bucket, place]
        · rw [if_neg heq, h.heads b hb]
          simp [bucket, place, Ne.symm heq]
      · simp only [h.cnt, List.length_append, List.length_singleton]
      · rw [List.map_append]
        refine List.nodup_append.mpr ⟨h.nodup, by simp, ?_⟩
        intro i hi j hj heq
        obtain rfl := List.mem_singleton.mp hj
        rw [heq] at hi
        exact hid hi
      · intro e he
        rcases List.mem_append.mp he with he | he
        · exact Nat.lt_succ_of_lt (h.fresh e he)
        · rw [List.mem_singleton.mp he]
          exact Nat.lt_succ_self _

theorem Stores.remove (h : Stores hash cmp release order n t live)
    (hp : ∀ x, p x → place hash order x = b) (hlive : live = l ++ e :: l')
    (herase : live.eraseP p = l ++ l') :
    Stores hash cmp release order n
      ⟨{ t.ht.setHead b (bucket (place hash order) (l ++ l') b) with cnt := t.ht.cnt - 1 }, t.entries⟩
      (l ++ l') := by
  have hsub : (l ++ l').Sublist live := herase ▸ List.eraseP_sublist
  refine ⟨h.hashFunc, h.cmpFunc, h.release, h.bits, h.buckets, ?_, ?_, ?_, ?_⟩
  · intro c hc
    simp only [Handle.setHead, Function.update_apply]
    by_cases heq : c = b
    · rw [if_pos heq, heq]
    · rw [if_neg heq, h.heads c hc, ← herase, bucket_eraseP_of_ne hp heq]
  · simp only [h.cnt, hlive, List.length_append, List.length_cons]
    omega
  · exact h.nodup.sublist (hsub.map Entry.id)
  · exact fun x hx => h.fresh x (hsub.subset hx)

theorem Stores.doDelete (hh : Hashes hash cmp order n) (h : Stores hash cmp release order n t live)
    (key : K) (keepdata : Bool) :
    (hashtblDoDelete t.ht key keepdata = (t.ht, ⟨-1, none, []⟩) ∧
        ∀ x ∈ live, cmp key x.key ≠ 0) ∨
      ∃ ht' l e l', live = l ++ e :: l' ∧ cmp key e.key = 0 ∧ (∀ x ∈ l, cmp key x.key ≠ 0) ∧
        hashtblDoDelete t.ht key keepdata =
          (ht', ⟨0, none, if keepdata then [] else if release then [e] else []⟩) ∧
        Stores hash cmp release order n ⟨ht', t.entries⟩ (l ++ l') := by
  have hlt := hh.lt key
  have hnot : ¬ n ≤ hash key order := by omega
  have htake := takeOut_eq (fun e => decide (cmp key e.key = 0)) (t.ht.heads (hash key order))
  rw [h.heads _ hlt, filter_bucket fun x hx => hh.equal x hx, ← bucket_eraseP fun x hx => hh.equal x hx]
    at htake
  rcases first_cases (fun e => decide (cmp key e.key = 0)) live with
    ⟨hnone, hall⟩ | ⟨e, l, l', hlive, he, hbefore, hfirst, herase⟩
  · refine .inl ⟨?_, fun x hx heq => hall x hx (decide_eq_true heq)⟩
    rw [hnone] at htake
    rw [hashtblDoDelete, h.hashFunc, h.bits, h.buckets, if_neg hnot, h.cmpFunc, h.heads _ hlt, htake]
    rfl
  · have hst := h.remove (fun x hx => hh.equal x hx) hlive herase
    refine .inr ⟨_, l, e, l', hlive, of_decide_eq_true he,
      fun x hx heq => hbefore x hx (decide_eq_true heq), ?_, hst⟩
    rw [hfirst, herase] at htake
    rw [hashtblDoDelete, h.hashFunc, h.bits, h.buckets, if_neg hnot, h.cmpFunc, h.heads _ hlt, htake,
      Option.map_some]
    simp only [Handle.releases, h.release]

theorem Stores.delete (hh : Hashes hash cmp order n) (h : Stores hash cmp release order n t live)
    (key : K) :
    ∃ t' o live', step t (.delete key : Op K V σ) = some (t', o) ∧
      Does cmp release live (.delete key : Op K V σ) o live' ∧
      Stores hash cmp release order n t' live' := by
  rcases h.doDelete hh key false with ⟨hdo, hall⟩ | ⟨ht', l, e, l', rfl, he, hl, hdo, hst⟩
  · exact ⟨t, _, live, by rw [step, hashtblDelete, hdo], .deleteNone live key hall, h⟩
  · exact ⟨_, _, _, by rw [step, hashtblDelete, hdo]; rfl, .delete l l' e key he hl, hst⟩

theorem Stores.deleteKeepdata (hh : Hashes hash cmp order n)
    (h : Stores hash cmp release order n t live) (key : K) :
    ∃ t' o live', step t (.deleteKeepdata key : Op K V σ) = some (t', o) ∧
      Does cmp release live (.deleteKeepdata key : Op K V σ) o live' ∧
      Stores hash cmp release order n t' live' := by
  rcases h.doDelete hh key true with ⟨hdo, hall⟩ | ⟨ht', l, e, l', rfl, he, hl, hdo, hst⟩
  · exact ⟨t, _, live, by rw [step, hashtblDeleteKeepdata, hdo], .keepNone live key hall, h⟩
  · exact ⟨_, _, _, by rw [step, hashtblDeleteKeepdata, hdo]; rfl, .keep l l' e key he hl, hst⟩

theorem popLoop_cases (ht : Handle K V) (m b : Nat) :
    (popLoop ht m b = (ht, ⟨-1, none, []⟩) ∧ ∀ c, b ≤ c → c < b + m → ht.heads c = []) ∨
      ∃ c e l, b ≤ c ∧ c < b + m ∧ ht.heads c = e :: l ∧ popLoop ht m b =
        ({ ht.setHead c l with cnt := ht.cnt - 1 }, ⟨0, some (e.key, e.value), []⟩) := by
  induction m generalizing b with
  | zero => exact .inl ⟨rfl, fun c h1 h2 => by omega⟩
  | succ m ih =>
      cases hb : ht.heads b with
      | nil =>
          have hskip : popLoop ht (m + 1) b = popLoop ht m (b + 1) := by rw [popLoop, hb]
          rcases ih (b + 1) with ⟨hpop, hempty⟩ | ⟨c, e, l, h1, h2, hc, hpop⟩
          · refine .inl ⟨hskip.trans hpop, fun c h1 h2 => ?_⟩
            rcases Nat.lt_or_eq_of_le h1 with h1 | rfl
            · exact hempty c h1 (by omega)
            · exact hb
          · exact .inr ⟨c, e, l, by omega, by omega, hc, hskip.trans hpop⟩
      | cons e l =>
          exact .inr ⟨b, e, l, Nat.le_refl b, by omega, hb, by rw [popLoop, hb]⟩

theorem Stores.pop (hh : Hashes hash cmp order n) (h : Stores hash cmp release order n t live) :
    ∃ t' o live', step t (.pop : Op K V σ) = some (t', o) ∧
      Does cmp release live (.pop : Op K V σ) o live' ∧
      Stores hash cmp release order n t' live' := by
  rcases popLoop_cases t.ht t.ht.buckets 0 with ⟨hpop, hempty⟩ | ⟨c, e, l, _, hc, hhead, hpop⟩
  · have hnil : live = [] := by
      by_contra hne
      obtain ⟨x, hx⟩ := List.exists_mem_of_ne_nil live hne
      have hlt := hh.lt x.key
      have hb := hempty (hash x.key order) (Nat.zero_le _) (by rw [h.buckets]; omega)
      rw [h.heads _ hlt] at hb
      exact List.not_mem_nil (hb ▸ mem_bucket.mpr ⟨hx, rfl⟩)
    subst hnil
    exact ⟨t, _, [], by rw [step, hashtblPop, hpop], .popNone, h⟩
  · rw [h.buckets, Nat.zero_add] at hc
    have hbucket := (h.heads c hc).symm.trans hhead
    -- the head of a bucket is the first live entry of its place
    rcases first_cases (fun x => decide (place hash order x = c)) live with
      ⟨hnone, _⟩ | ⟨x, l₁, l₂, hlive, hx, hbefore, hfirst, herase⟩
    · rw [← bucket, hbucket] at hnone
      cases hnone
    · rw [← bucket, hbucket] at hfirst
      obtain rfl := Option.some.inj hfirst
      have hst := h.remove (p := fun x => decide (place hash order x = c))
        (fun x hx => of_decide_eq_true hx) hlive herase
      have hrest : bucket (place hash order) (l₁ ++ l₂) c = l := by
        rw [← herase, bucket_eraseP fun x hx => of_decide_eq_true hx, hbucket,
          List.eraseP_cons_of_pos (p := fun x => decide (place hash order x = c)) hx]
      rw [hrest] at hst
      subst hlive
      refine ⟨_, _, _, by rw [step, hashtblPop, hpop], .pop l₁ l₂ e ?_, hst⟩
      intro y hy heq
      have hplace : place hash order y = c :=
        (hh.eq e.key y.key heq).symm.trans (of_decide_eq_true hx)
      exact hbefore y hy (decide_eq_true hplace)

theorem answered_cons (ok : K → V → σ → Bool × σ) (arg : σ) (e : Entry K V) (l : List (Entry K V))
    (yes : Bool) : answered ok arg (e :: l) yes =
      if (ok e.key e.value arg).1 = yes then e :: answered ok (ok e.key e.value arg).2 l yes
      else answered ok (ok e.key e.value arg).2 l yes := by
  by_cases hyes : (ok e.key e.value arg).1 = yes
  · rw [if_pos hyes, answered, answers, List.filter_cons_of_pos (by simp [hyes])]
    rfl
  · rw [if_neg hyes, answered, answers, List.filter_cons_of_neg (by simp [hyes])]
    rfl

/-- The argument that the callback has after some entries. -/
def argAfter (ok : K → V → σ → Bool × σ) (arg : σ) (l : List (Entry K V)) : σ :=
  l.foldl (fun arg e => (ok e.key e.value arg).2) arg

theorem answered_append (ok : K → V → σ → Bool × σ) (arg : σ) (l l' : List (Entry K V)) (yes : Bool) :
    answered ok arg (l ++ l') yes = answered ok arg l yes ++ answered ok (argAfter ok arg l) l' yes := by
  induction l generalizing arg with
  | nil => rfl
  | cons e l ih =>
      rw [List.cons_append, answered_cons, answered_cons, ih]
      split_ifs <;> rfl

theorem answered_subset (ok : K → V → σ → Bool × σ) (arg : σ) (l : List (Entry K V)) (yes : Bool) :
    ∀ e ∈ answered ok arg l yes, e ∈ l := by
  induction l generalizing arg with
  | nil => exact nofun
  | cons e l ih =>
      intro x hx
      rw [answered_cons] at hx
      split_ifs at hx
      · rcases List.mem_cons.mp hx with rfl | hx
        · exact List.mem_cons_self
        · exact List.mem_cons_of_mem _ (ih _ x hx)
      · exact List.mem_cons_of_mem _ (ih _ x hx)

theorem sweepChain_eq (ok : K → V → σ → Bool × σ) (arg : σ) (l : List (Entry K V)) :
    sweepChain ok arg l = ⟨argAfter ok arg l, answered ok arg l false, answered ok arg l true⟩ := by
  induction l generalizing arg with
  | nil => rfl
  | cons e l ih =>
      rw [sweepChain, ih, answered_cons, answered_cons]
      cases (ok e.key e.value arg).1 <;> rfl

theorem sweepHeads_eq (ok : K → V → σ → Bool × σ) (arg : σ) (heads : Nat → List (Entry K V)) (m : Nat) :
    (sweepHeads ok arg heads m).1 = argAfter ok arg (visits heads m) ∧
      visits (sweepHeads ok arg heads m).2.1 m = answered ok arg (visits heads m) false ∧
      (sweepHeads ok arg heads m).2.2 = answered ok arg (visits heads m) true ∧
      (∀ b, ∀ e ∈ (sweepHeads ok arg heads m).2.1 b, e ∈ heads b) := by
  induction m with
  | zero => exact ⟨rfl, rfl, rfl, fun b e he => he⟩
  | succ m ih =>
      obtain ⟨harg, hkept, hdeleted, hsub⟩ := ih
      have hvisits : visits heads (m + 1) = visits heads m ++ heads m := by
        rw [visits, List.range_succ, List.flatMap_append, List.flatMap_singleton, visits]
      have hbefore : visits (Function.update (sweepHeads ok arg heads m).2.1 m
          (answered ok (argAfter ok arg (visits heads m)) (heads m) false)) m =
          visits (sweepHeads ok arg heads m).2.1 m := by
        rw [visits, visits, List.flatMap_def, List.flatMap_def]
        apply congrArg
        apply List.map_congr_left
        intro b hb
        exact Function.update_of_ne (Nat.ne_of_lt (List.mem_range.mp hb)) _ _
      rw [sweepHeads, harg, sweepChain_eq, hvisits, answered_append, answered_append]
      dsimp only
      refine ⟨(List.foldl_append ..).symm, ?_, congrArg (· ++ _) hdeleted, ?_⟩
      · rw [visits, List.range_succ, List.flatMap_append, List.flatMap_singleton, ← visits, hbefore,
          hkept, Function.update_self]
      · intro b e he
        simp only [Function.update_apply] at he
        by_cases hb : b = m
        · rw [if_pos hb] at he
          rw [hb]
          exact answered_subset _ _ _ _ e he
        · rw [if_neg hb] at he
          exact hsub b e he

theorem answered_false (ok : K → V → σ → Bool × σ) (arg : σ) (l : List (Entry K V))
    (hl : (l.map Entry.id).Nodup) : answered ok arg l false =
      l.filter fun e => e.id ∉ (answered ok arg l true).map Entry.id := by
  induction l generalizing arg with
  | nil => rfl
  | cons e l ih =>
      obtain ⟨he, hnd⟩ := List.nodup_cons.mp hl
      have hne : ∀ x ∈ l, x.id ≠ e.id := fun x hx heq => he (heq ▸ List.mem_map_of_mem hx)
      have hgone : e.id ∉ (answered ok (ok e.key e.value arg).2 l true).map Entry.id := by
        intro hmem
        obtain ⟨x, hx, heq⟩ := List.mem_map.mp hmem
        exact hne x (answered_subset _ _ _ _ x hx) heq
      rw [answered_cons, answered_cons, ih _ hnd]
      cases (ok e.key e.value arg).1 with
      | true =>
          rw [if_neg (by decide), if_pos rfl, List.filter_cons_of_neg (by simp)]
          apply List.filter_congr
          intro x hx
          simp only [List.map_cons, List.mem_cons, hne x hx, false_or]
      | false =>
          rw [if_pos rfl, if_neg (by decide), List.filter_cons_of_pos (by simpa using hgone)]

theorem answered_length (ok : K → V → σ → Bool × σ) (arg : σ) (l : List (Entry K V)) :
    (answered ok arg l false).length + (answered ok arg l true).length = l.length := by
  induction l generalizing arg with
  | nil => rfl
  | cons e l ih =>
      have hrest := ih (ok e.key e.value arg).2
      rw [answered_cons, answered_cons]
      cases (ok e.key e.value arg).1 <;> simp only [Bool.false_eq_true, if_false, if_true,
        List.length_cons, Bool.true_eq_false] <;> omega

theorem Stores.bucket_visits (h : Stores hash cmp release order n t live) (hb : b < n) :
    bucket (place hash order) (visits t.ht.heads n) b = bucket (place hash order) live b := by
  rw [← h.heads b hb]
  refine bucket_flatMap ?_ hb
  intro c hc x hx
  rw [h.heads c hc] at hx
  exact (mem_bucket.mp hx).2

theorem Stores.traverseDelete (hh : Hashes hash cmp order n)
    (h : Stores hash cmp release order n t live) (ok : K → V → σ → Bool × σ) (arg : σ) :
    ∃ t' o live', step t (.traverseDelete ok arg) = some (t', o) ∧
      Does cmp release live (.traverseDelete ok arg) o live' ∧
      Stores hash cmp release order n t' live' := by
  have hperm := h.visits_perm hh
  rw [h.buckets] at hperm
  obtain ⟨_, hkept, hdeleted, hsub⟩ := sweepHeads_eq ok arg t.ht.heads n
  have hstay := answered_false ok arg _ ((hperm.map Entry.id).nodup_iff.mpr h.nodup)
  have hlength := answered_length ok arg (visits t.ht.heads n)
  generalize hr : sweepHeads ok arg t.ht.heads n = r at hkept hdeleted hsub
  refine ⟨⟨{ t.ht with heads := r.2.1, cnt := t.ht.cnt - r.2.2.length }, t.entries⟩,
    ⟨intCount (answered ok arg (visits t.ht.heads n) false).length, none,
      if release then answered ok arg (visits t.ht.heads n) true else []⟩, _, ?_,
    .traverseDelete live (visits t.ht.heads n) ok arg hperm,
    ⟨h.hashFunc, h.cmpFunc, h.release, h.bits, h.buckets, ?_, ?_, ?_, ?_⟩⟩
  · simp only [step, hashtblTraverseDelete, h.buckets, hr, Handle.releases, h.release, hkept, hdeleted]
  · intro b hb
    have hplace : ∀ c < n, ∀ x ∈ r.2.1 c, place hash order x = c := by
      intro c hc x hx
      have hmem := hsub c x hx
      rw [h.heads c hc] at hmem
      exact (mem_bucket.mp hmem).2
    have hbucket := bucket_flatMap hplace hb
    rw [← visits, hkept, hstay, bucket_filter, h.bucket_visits hb, ← bucket_filter] at hbucket
    exact hbucket.symm
  · have hlen := (hperm.filter fun e =>
      e.id ∉ (answered ok arg (visits t.ht.heads n) true).map Entry.id).length_eq
    rw [← hstay] at hlen
    have hcnt := h.cnt
    have hall := hperm.length_eq
    simp only [hdeleted]
    omega
  · exact h.nodup.sublist (List.filter_sublist.map Entry.id)
  · exact fun e he => h.fresh e (List.mem_filter.mp he).1

theorem Stores.clear (hh : Hashes hash cmp order n) (h : Stores hash cmp release order n t live) :
    ∃ t' o live', step t (.clear : Op K V σ) = some (t', o) ∧
      Does cmp release live (.clear : Op K V σ) o live' ∧
      Stores hash cmp release order n t' live' := by
  have hperm := h.visits_perm hh
  refine ⟨⟨(hashtblClear t.ht).1, t.entries⟩,
    ⟨0, none, if release then visits t.ht.heads t.ht.buckets else []⟩, [], ?_,
    .clear live _ hperm, ⟨h.hashFunc, h.cmpFunc, h.release, h.bits, h.buckets, ?_, rfl, List.nodup_nil,
      nofun⟩⟩
  · simp only [Hashtbl.step, hashtblClear, Handle.releases, h.release]
  · intro b hb
    exact if_pos (by rw [h.buckets]; exact hb)

theorem Stores.step (hh : Hashes hash cmp order n) (h : Stores hash cmp release order n t live)
    (op : Op K V σ) : ∃ t' o live', step t op = some (t', o) ∧ Does cmp release live op o live' ∧
      Stores hash cmp release order n t' live' := by
  cases op with
  | insert key value mem => exact h.insert hh key value mem
  | delete key => exact h.delete hh key
  | deleteKeepdata key => exact h.deleteKeepdata hh key
  | pop => exact h.pop hh
  | traverseDelete ok arg => exact h.traverseDelete hh ok arg
  | clear => exact h.clear hh

theorem sizeLoop_pow {buckets : Int} {s : Int × Nat}
    (h : GotoLoop.loop (sizeRound buckets) 32 (1, 0) = some s) : s.1 = 2 ^ s.2 := by
  have hpow := @GotoLoop.loop_induction _ _ (sizeRound buckets)
    (fun s x => s.1 = 2 ^ s.2 → x.1 = 2 ^ x.2) ?_ ?_ _ _ _ h
  · exact hpow rfl
  · intro s x hleave hs
    rw [sizeRound] at hleave
    split_ifs at hleave
    · cases hleave
    · cases hleave
      exact hs
  · intro s s' x hgo hx hs
    rw [sizeRound] at hgo
    split_ifs at hgo
    · cases hgo
      apply hx
      rw [hs, pow_succ, mul_comm]
    · cases hgo

theorem hashtblOpen_stores {buckets : Int} {ht : Handle K V}
    (h : hashtblOpen hash cmp release buckets = some ht) :
    Stores hash cmp release ht.order (2 ^ ht.order) ⟨ht, 0⟩ [] := by
  obtain ⟨s, hloop, hs⟩ := Option.bind_eq_some_iff.mp h
  have hpow := sizeLoop_pow hloop
  obtain rfl := Option.some.inj hs
  refine ⟨rfl, rfl, rfl, rfl, ?_, fun _ _ => rfl, rfl, List.nodup_nil, nofun⟩
  simp only [hpow]
  exact_mod_cast Int.toNat_natCast (2 ^ s.2)

theorem hashtblOpen_some {buckets : Int} (h : buckets ≤ 0x40000000) :
    ∃ ht : Handle K V, hashtblOpen hash cmp release buckets = some ht := by
  have hround : ∀ s : Int × Nat, s.1 = 2 ^ s.2 ∧ s.2 ≤ 30 → GotoLoop.Round (sizeRound buckets)
      (fun s => s.1 = 2 ^ s.2 ∧ s.2 ≤ 30) (fun _ => True) (fun s => 30 - s.2) s := by
    rintro s ⟨hs, hle⟩
    by_cases hlt : s.1 < buckets
    · have hne : s.2 ≠ 30 := by
        intro heq
        rw [hs, heq] at hlt
        omega
      have hpow : (2 : Int) ^ (s.2 + 1) ≤ 2 ^ 30 := pow_le_pow_right₀ (by omega) (by omega)
      rw [pow_succ, ← hs] at hpow
      refine .inl ⟨(2 * s.1, s.2 + 1), ?_, ⟨?_, by omega⟩, by simp only; omega⟩
      · rw [sizeRound, if_pos hlt, if_neg (by omega)]
      · rw [hs, pow_succ, mul_comm]
    · exact .inr ⟨s, by rw [sizeRound, if_neg hlt], trivial⟩
  obtain ⟨s, hloop, _⟩ := GotoLoop.loop_total hround (n := 32) (s := (1, 0)) ⟨rfl, by decide⟩ (by decide)
  exact ⟨_, by rw [hashtblOpen, hloop]; rfl⟩

/-- A table is a list of its live entries in the order of their insertion. -/
theorem hashtbl_refines (hash : K → Nat → Nat) (cmp : K → K → Int) (release : Bool)
    (hequal : ∀ a b order, cmp a b = 0 → hash a order = hash b order) (buckets : Int) :
    (buckets ≤ 0x40000000 → ∃ ht : Handle K V, hashtblOpen hash cmp release buckets = some ht) ∧
    ∀ ht : Handle K V, hashtblOpen hash cmp release buckets = some ht →
      (∀ k, hash k ht.order < 2 ^ ht.order) → ∀ ops : List (Op K V σ),
      ∃ t outs live, run step ⟨ht, 0⟩ ops = some (t, outs) ∧ Runs (Does cmp release) [] ops outs live ∧
        (∀ key (i : Nat), hashtblFindSeq t.ht key none i =
          ((live.filter fun e => cmp key e.key = 0)[i]?).map Entry.value) ∧
        (hashtblTraverse t.ht).1.Perm live ∧ t.ht.cnt = live.length := by
  refine ⟨hashtblOpen_some, ?_⟩
  intro ht hopen hlt ops
  have hh : Hashes hash cmp ht.order (2 ^ ht.order) := ⟨hlt, fun a b => hequal a b ht.order⟩
  obtain ⟨t, outs, live, hrun, hmeets, hst⟩ :=
    run_meets (fun t live op h => Stores.step hh h op) (hashtblOpen_stores hopen) ops
  exact ⟨t, outs, live, hrun, hmeets, hst.findSeq hh, hst.visits_perm hh, hst.cnt⟩

/-- Three buckets become four, and 1 and 5 share one of them. -/
def sharedBucket : List (Op Nat Nat Unit) :=
  [.insert 1 10 true, .insert 5 50 true, .insert 1 11 true, .delete 1, .pop]

def byDifference (a b : Nat) : Int := a - b

theorem hashtbl_refines_four : ∃ (ht : Handle Nat Nat) (t : Table Nat Nat) (outs : List (Out Nat Nat))
    (live : List (Entry Nat Nat)),
    hashtblOpen (fun k order => k % 2 ^ order) byDifference true 3 = some ht ∧
      run step ⟨ht, 0⟩ sharedBucket = some (t, outs) ∧
      Runs (Does byDifference true) [] sharedBucket outs live ∧ t.ht.cnt = live.length := by
  have hequal : ∀ a b order, byDifference a b = 0 → a % 2 ^ order = b % 2 ^ order := by
    intro a b order heq
    simp only [byDifference] at heq
    rw [show a = b by omega]
  obtain ⟨hsome, hruns⟩ := hashtbl_refines (V := Nat) (σ := Unit) (fun k order => k % 2 ^ order)
    byDifference true hequal 3
  obtain ⟨ht, hopen⟩ := hsome (by decide)
  obtain ⟨t, outs, live, hrun, hmeets, _, _, hcnt⟩ :=
    hruns ht hopen (fun k => Nat.mod_lt k (Nat.two_pow_pos _)) sharedBucket
  exact ⟨ht, t, outs, live, hopen, hrun, hmeets, hcnt⟩

end OiAmc.HashtblRefine
