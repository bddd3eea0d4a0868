import OiAmc.Buckets
import OiAmc.GotoLoop
import OiAmc.PartialMachine

namespace OiAmc.Hashtbl

variable {K V σ : Type}

/-- A hashtbl_hlentry. The id stands for its address. -/
structure Entry (K V : Type) where
  id : Nat
  key : K
  value : V

/-- A hashtbl_handle. There is a release callback, or none. -/
structure Handle (K V : Type) where
  order : Nat
  buckets : Nat
  hashFunc : K → Nat → Nat
  cmpFunc : K → K → Int
  release : Bool
  heads : Nat → List (Entry K V)
  cnt : Nat

/-- One round of the loop that sizes the table. An int cannot be shifted past its range. -/
def sizeRound (buckets : Int) (s : Int × Nat) : Option ((Int × Nat) ⊕ (Int × Nat)) :=
  if s.1 < buckets then
    if 2147483647 < 2 * s.1 then none else some (.inl (2 * s.1, s.2 + 1))
  else some (.inr s)

def hashtblOpen (hashFunc : K → Nat → Nat) (cmpFunc : K → K → Int) (release : Bool) (buckets : Int) :
    Option (Handle K V) := do
  let s ← GotoLoop.loop (sizeRound buckets) 32 (1, 0)
  return ⟨s.2, s.1.toNat, hashFunc, cmpFunc, release, fun _ => [], 0⟩

def Handle.setHead (ht : Handle K V) (b : Nat) (l : List (Entry K V)) : Handle K V :=
  { ht with heads := Function.update ht.heads b l }

/-- The search from an entry on, after i equal ones. -/
def findLoop (docmp : K → K → Int) (key : K) (seq : Int) : Int → List (Entry K V) → Option V
  | _, [] => none
  | i, e :: l =>
      if docmp key e.key = 0 then
        if i = seq then some e.value else findLoop docmp key seq (i + 1) l
      else findLoop docmp key seq i l

def doHashtblFind (ht : Handle K V) (key : K) (cmpFunc : Option (K → K → Int)) (seq : Int) : Option V :=
  let bucket := ht.hashFunc key ht.order
  if ht.buckets ≤ bucket then none
  else findLoop (cmpFunc.getD ht.cmpFunc) key seq 0 (ht.heads bucket)

def hashtblFind (ht : Handle K V) (key : K) (cmpFunc : Option (K → K → Int)) : Option V :=
  doHashtblFind ht key cmpFunc 0

def hashtblFindSeq (ht : Handle K V) (key : K) (cmpFunc : Option (K → K → Int)) (seq : Int) : Option V :=
  doHashtblFind ht key cmpFunc seq

/-- What a call returns, the entry that it hands over, and those it calls release for. -/
structure Out (K V : Type) where
  rc : Int
  entry : Option (K × V)
  released : List (Entry K V)

def Handle.releases (ht : Handle K V) (l : List (Entry K V)) : List (Entry K V) :=
  if ht.release then l else []

def hashtblInsert (ht : Handle K V) (key : K) (value : V) (entry : Option Nat) :
    Handle K V × Out K V :=
  let bucket := ht.hashFunc key ht.order
  if ht.buckets ≤ bucket then (ht, ⟨-1, none, []⟩)
  else
    match entry with
    | none => (ht, ⟨-1, none, []⟩)
    | some id =>
        ({ ht.setHead bucket (ht.heads bucket ++ [⟨id, key, value⟩]) with cnt := ht.cnt + 1 },
          ⟨0, none, []⟩)

/-- The list up to an entry that is taken out, that entry, and the list after it. -/
def takeOut (p : Entry K V → Bool) : List (Entry K V) → Option (Entry K V × List (Entry K V))
  | [] => none
  | e :: l => if p e then some (e, l) else (takeOut p l).map fun r => (r.1, e :: r.2)

def hashtblDoDelete (ht : Handle K V) (key : K) (keepdata : Bool) : Handle K V × Out K V :=
  let bucket := ht.hashFunc key ht.order
  if ht.buckets ≤ bucket then (ht, ⟨-1, none, []⟩)
  else
    match takeOut (fun e => ht.cmpFunc key e.key = 0) (ht.heads bucket) with
    | none => (ht, ⟨-1, none, []⟩)
    | some (e, l) =>
        ({ ht.setHead bucket l with cnt := ht.cnt - 1 },
          ⟨0, none, if keepdata then [] else ht.releases [e]⟩)

def hashtblDelete (ht : Handle K V) (key : K) : Handle K V × Out K V := hashtblDoDelete ht key false

def hashtblDeleteKeepdata (ht : Handle K V) (key : K) : Handle K V × Out K V :=
  hashtblDoDelete ht key true

/-- The first entry of the first bucket that has one, among some buckets from b on. -/
def popLoop (ht : Handle K V) : Nat → Nat → Handle K V × Out K V
  | 0, _ => (ht, ⟨-1, none, []⟩)
  | n + 1, b =>
      match ht.heads b with
      | [] => popLoop ht n (b + 1)
      | e :: l => ({ ht.setHead b l with cnt := ht.cnt - 1 }, ⟨0, some (e.key, e.value), []⟩)

def hashtblPop (ht : Handle K V) : Handle K V × Out K V := popLoop ht ht.buckets 0

/-- A count of entries, as the int that it is kept in. -/
def intCount (n : Nat) : Int := (n : Int).bmod 0x100000000

/-- The entries in the order of the calls of action. -/
def visits (heads : Nat → List (Entry K V)) (n : Nat) : List (Entry K V) := (List.range n).flatMap heads

def hashtblTraverse (ht : Handle K V) : List (Entry K V) × Int :=
  (visits ht.heads ht.buckets, intCount (visits ht.heads ht.buckets).length)

/-- What a pass over a bucket leaves: what the callback keeps in its argument, the entries
that stay, and those that are deleted. -/
structure Sweep (K V σ : Type) where
  arg : σ
  kept : List (Entry K V)
  deleted : List (Entry K V)

def sweepChain (ok : K → V → σ → Bool × σ) : σ → List (Entry K V) → Sweep K V σ
  | arg, [] => ⟨arg, [], []⟩
  | arg, e :: l =>
      let r := ok e.key e.value arg
      let s := sweepChain ok r.2 l
      if r.1 then ⟨s.arg, s.kept, e :: s.deleted⟩ else ⟨s.arg, e :: s.kept, s.deleted⟩

def sweepHeads (ok : K → V → σ → Bool × σ) (arg : σ) (heads : Nat → List (Entry K V)) :
    Nat → σ × (Nat → List (Entry K V)) × List (Entry K V)
  | 0 => (arg, heads, [])
  | n + 1 =>
      let r := sweepHeads ok arg heads n
      let s := sweepChain ok r.1 (heads n)
      (s.arg, Function.update r.2.1 n s.kept, r.2.2 ++ s.deleted)

def hashtblTraverseDelete (ht : Handle K V) (okToDel : K → V → σ → Bool × σ) (arg : σ) :
    Handle K V × Out K V :=
  let r := sweepHeads okToDel arg ht.heads ht.buckets
  ({ ht with heads := r.2.1, cnt := ht.cnt - r.2.2.length },
    ⟨intCount (visits r.2.1 ht.buckets).length, none, ht.releases r.2.2⟩)

def hashtblClear (ht : Handle K V) : Handle K V × Out K V :=
  ({ ht with heads := fun b => if b < ht.buckets then [] else ht.heads b, cnt := 0 },
    ⟨0, none, ht.releases (visits ht.heads ht.buckets)⟩)

/-- The calls. An insertion finds memory or does not. -/
inductive Op (K V σ : Type)
  | insert (key : K) (value : V) (mem : Bool)
  | delete (key : K)
  | deleteKeepdata (key : K)
  | pop
  | traverseDelete (okToDel : K → V → σ → Bool × σ) (arg : σ)
  | clear

/-- A table, and the number of entries that malloc has returned for it. -/
structure Table (K V : Type) where
  ht : Handle K V
  entries : Nat

def step (t : Table K V) : Op K V σ → Option (Table K V × Out K V)
  | .insert key value mem =>
      let r := hashtblInsert t.ht key value (if mem then some t.entries else none)
      some (⟨r.1, t.entries + 1⟩, r.2)
  | .delete key => let r := hashtblDelete t.ht key; some (⟨r.1, t.entries⟩, r.2)
  | .deleteKeepdata key => let r := hashtblDeleteKeepdata t.ht key; some (⟨r.1, t.entries⟩, r.2)
  | .pop => let r := hashtblPop t.ht; some (⟨r.1, t.entries⟩, r.2)
  | .traverseDelete okToDel arg =>
      let r := hashtblTraverseDelete t.ht okToDel arg
      some (⟨r.1, t.entries⟩, r.2)
  | .clear => let r := hashtblClear t.ht; some (⟨r.1, t.entries⟩, r.2)

def answers (ok : K → V → σ → Bool × σ) : σ → List (Entry K V) → List (Entry K V × Bool)
  | _, [] => []
  | arg, e :: l => (e, (ok e.key e.value arg).1) :: answers ok (ok e.key e.value arg).2 l

def answered (ok : K → V → σ → Bool × σ) (arg : σ) (l : List (Entry K V)) (yes : Bool) :
    List (Entry K V) :=
  ((answers ok arg l).filter fun a => a.2 = yes).map Prod.fst

inductive Does (cmp : K → K → Int) (release : Bool) :
    List (Entry K V) → Op K V σ → Out K V → List (Entry K V) → Prop
  | insert (live : List (Entry K V)) (id : Nat) (key : K) (value : V) (hid : id ∉ live.map Entry.id) :
      Does cmp release live (.insert key value true) ⟨0, none, []⟩ (live ++ [⟨id, key, value⟩])
  | full (live : List (Entry K V)) (key : K) (value : V) :
      Does cmp release live (.insert key value false) ⟨-1, none, []⟩ live
  | delete (l l' : List (Entry K V)) (e : Entry K V) (key : K) (he : cmp key e.key = 0)
      (hl : ∀ x ∈ l, cmp key x.key ≠ 0) :
      Does cmp release (l ++ e :: l') (.delete key) ⟨0, none, if release then [e] else []⟩ (l ++ l')
  | deleteNone (live : List (Entry K V)) (key : K) (hl : ∀ x ∈ live, cmp key x.key ≠ 0) :
      Does cmp release live (.delete key) ⟨-1, none, []⟩ live
  | keep (l l' : List (Entry K V)) (e : Entry K V) (key : K) (he : cmp key e.key = 0)
      (hl : ∀ x ∈ l, cmp key x.key ≠ 0) :
      Does cmp release (l ++ e :: l') (.deleteKeepdata key) ⟨0, none, []⟩ (l ++ l')
  | keepNone (live : List (Entry K V)) (key : K) (hl : ∀ x ∈ live, cmp key x.key ≠ 0) :
      Does cmp release live (.deleteKeepdata key) ⟨-1, none, []⟩ live
  | pop (l l' : List (Entry K V)) (e : Entry K V) (hl : ∀ x ∈ l, cmp e.key x.key ≠ 0) :
      Does cmp release (l ++ e :: l') .pop ⟨0, some (e.key, e.value), []⟩ (l ++ l')
  | popNone : Does cmp release [] .pop ⟨-1, none, []⟩ []
  | traverseDelete (live order : List (Entry K V)) (okToDel : K → V → σ → Bool × σ) (arg : σ)
      (horder : order.Perm live) :
      Does cmp release live (.traverseDelete okToDel arg)
        ⟨intCount (answered okToDel arg order false).length, none,
          if release then answered okToDel arg order true else []⟩
        (live.filter fun e => e.id ∉ (answered okToDel arg order true).map Entry.id)
  | clear (live order : List (Entry K V)) (horder : order.Perm live) :
      Does cmp release live .clear ⟨0, none, if release then order else []⟩ []

end OiAmc.Hashtbl
