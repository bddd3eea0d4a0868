import OiAmc.Pkt
import OiAmc.PartialMachine

/-! Files of packets, neither compressed nor of pcap. -/

namespace OiAmc.PktFile

open ByteOrder Pkt PartialMachine

def octets (u : List UInt8) : Octets := fun i => u.getD i 0

variable (host : Endian)

def pktWriteFileNormal (file data : List UInt8) : Int × List UInt8 :=
  let rlen := pktVerify host (some (octets data)) data.length
  if rlen ≤ 0 then (-1, file) else (rlen, file ++ data.take rlen.toNat)

def pktWriteFile (file data : List UInt8) : Int × List UInt8 :=
  if (data.length : Int) < hdrSize then (-1, file) else pktWriteFileNormal host file data

/-- Of the rest of a file: what is left of it and the buffer, none for NULL. found: whether malloc
finds memory, which it never does for a negative length. No outcome where the copy of the header
does not fit the buffer. -/
def pktReadFile (rest : List UInt8) (found : Bool) : Option (List UInt8 × Option (List UInt8)) :=
  if (rest.length : Int) < hdrSize then some ([], none)
  else
    let ph := rest.take 20
    let rest := rest.drop 20
    let len := pkthdrGetPlen host (octets ph)
    if len < 0 ∨ found = false then some (rest, none)
    else if len < hdrSize then none
    else if len = hdrSize then some (rest, some ph)
    else
      let payload := (len - hdrSize).toNat
      if rest.length < payload then some ([], none)
      else some (rest.drop payload, some (ph ++ rest.take payload))

def written (datas : List (List UInt8)) : List UInt8 :=
  datas.foldl (fun file data => (pktWriteFile host file data).2) []

def Accepted (data : List UInt8) : Prop := 0 < (pktWriteFile host [] data).1

/-- The packet at the start of what was given to the writer. -/
def packetOf (data : List UInt8) : List UInt8 := data.take (pkthdrGetPlen host (octets data)).toNat

/-- NULL, or a packet as long as its header says, for which the file was read on. -/
def GoodCall (rest rest' : List UInt8) (out : Option (List UInt8)) : Prop :=
  out = none ∨ ∃ buf, out = some buf ∧ pkthdrGetPlen host (octets buf) = buf.length ∧
    hdrSize ≤ buf.length ∧ rest'.length + 20 ≤ rest.length

def SafeCall (rest : List UInt8) (found : Bool) : Prop :=
  ∃ rest' out, pktReadFile host rest found = some (rest', out) ∧ GoodCall host rest rest' out

/-- Packets that were accepted are read back and NULL behind them; a file of any content is read
without a write outside of a buffer, and NULL comes in the end. -/
structure PacketFile (datas : List (List UInt8)) (memory : List Bool) (content : List UInt8)
    (answers : List Bool) : Prop where
  roundTrip : (∀ data ∈ datas, Accepted host data) → memory.length = datas.length → ∀ last,
    run (pktReadFile host) (written host datas) (memory ++ [last]) =
      some ([], datas.map (fun data => some (packetOf host data)) ++ [none])
  safe : Guarded (pktReadFile host) (SafeCall host) content answers
  ends : ∀ rest outs, run (pktReadFile host) content answers = some (rest, outs) →
    (∀ out ∈ outs, out ≠ none) → 20 * answers.length ≤ content.length

def headerLength (content : List UInt8) : Int := pkthdrGetPlen host (octets content)

/-- Among the headers that are reached, none that finds memory has a length between zero and
that of a header. -/
def Clear : List Bool → List UInt8 → Prop
  | [], _ => True
  | found :: answers, content =>
      if (content.length : Int) < hdrSize then True
      else if headerLength host content < 0 ∨ found = false then Clear answers (content.drop 20)
      else hdrSize ≤ headerLength host content ∧
        Clear answers (content.drop (headerLength host content).toNat)

variable {host} {data rest t p content : List UInt8} {found : Bool} {answers : List Bool}

theorem octets_append {u v : List UInt8} {i : Nat} (hi : i < u.length) : octets (u ++ v) i = octets u i := by
  simp only [octets, List.getD_eq_getElem?_getD, List.getElem?_append_left hi]

theorem octets_take {u : List UInt8} {n i : Nat} (hi : i < n) : octets (u.take n) i = octets u i := by
  simp only [octets, List.getD_eq_getElem?_getD, List.getElem?_take_of_lt hi]

theorem getPlen_take {u : List UInt8} {n : Nat} (hn : 8 ≤ n) :
    pkthdrGetPlen host (octets (u.take n)) = pkthdrGetPlen host (octets u) :=
  getPlen_congr fun i hi => octets_take (by omega)

theorem verify_pos {ph : Octets} {size : Int} (h : 0 < pktVerify host (some ph) size) :
    pktVerify host (some ph) size = pkthdrGetPlen host ph ∧ hdrSize ≤ pkthdrGetPlen host ph ∧
      pkthdrGetPlen host ph ≤ size := by
  simp only [pktVerify] at h ⊢
  by_cases h1 : size < hdrSize
  · rw [if_pos h1] at h
    omega
  by_cases h2 : (!pkthdrValidSync host ph) = true
  · rw [if_neg h1, if_pos h2] at h
    omega
  by_cases h3 : pkthdrGetPlen host ph < hdrSize
  · rw [if_neg h1, if_neg h2, if_pos h3] at h
    omega
  by_cases h4 : size > 0 ∧ pkthdrGetPlen host ph > size
  · rw [if_neg h1, if_neg h2, if_neg h3, if_pos h4] at h
    omega
  · rw [if_neg h1, if_neg h2, if_neg h3, if_neg h4]
    simp only [hdrSize] at h1 h3
    refine ⟨rfl, ?_, ?_⟩
    · simp only [hdrSize]
      omega
    · omega

theorem write_eq (h : 0 < pktVerify host (some (octets data)) data.length) (file : List UInt8) :
    pktWriteFileNormal host file data = (pkthdrGetPlen host (octets data), file ++ packetOf host data) := by
  obtain ⟨heq, -, -⟩ := verify_pos h
  simp only [pktWriteFileNormal]
  rw [if_neg (by omega), heq, packetOf]

theorem accepted_cases (h : Accepted host data) :
    (∀ file, (pktWriteFile host file data).2 = file ++ packetOf host data) ∧
      hdrSize ≤ pkthdrGetPlen host (octets data) ∧ pkthdrGetPlen host (octets data) ≤ data.length := by
  rw [Accepted, pktWriteFile] at h
  by_cases hshort : (data.length : Int) < hdrSize
  · rw [if_pos hshort] at h
    exact absurd h (by decide)
  rw [if_neg hshort] at h
  by_cases hbad : pktVerify host (some (octets data)) data.length ≤ 0
  · simp only [pktWriteFileNormal, if_pos hbad] at h
    exact absurd h (by decide)
  have hpos : 0 < pktVerify host (some (octets data)) data.length := by omega
  refine ⟨fun file => ?_, (verify_pos hpos).2⟩
  rw [pktWriteFile, if_neg hshort, write_eq hpos]

/-- What a reader gives back: a packet as long as its header says. -/
structure Packet (host : Endian) (p : List UInt8) : Prop where
  plen : pkthdrGetPlen host (octets p) = p.length
  header : 20 ≤ p.length

theorem packet_of_accepted (h : Accepted host data) : Packet host (packetOf host data) := by
  obtain ⟨-, hmin, hmax⟩ := accepted_cases h
  simp only [hdrSize] at hmin
  have hlen : ((packetOf host data).length : Int) = pkthdrGetPlen host (octets data) := by
    rw [packetOf, List.length_take]
    omega
  refine ⟨?_, by omega⟩
  rw [hlen, packetOf, getPlen_take (by omega)]

theorem written_append (datas : List (List UInt8)) (h : ∀ data ∈ datas, Accepted host data) :
    written host datas = (datas.map (packetOf host)).flatten := by
  have hfold (file : List UInt8) : datas.foldl (fun file data => (pktWriteFile host file data).2) file =
      file ++ (datas.map (packetOf host)).flatten := by
    induction datas generalizing file with
    | nil => rw [List.map_nil, List.flatten_nil, List.append_nil]; rfl
    | cons data datas ih =>
        obtain ⟨hdata, hdatas⟩ := List.forall_mem_cons.mp h
        rw [List.foldl_cons, (accepted_cases hdata).1, ih hdatas, List.map_cons, List.flatten_cons,
          List.append_assoc]
  exact hfold []

theorem read_packet (hp : Packet host p) (t : List UInt8) :
    pktReadFile host (p ++ t) true = some (t, some p) := by
  obtain ⟨hplen, hlen⟩ := hp
  have hheader : pkthdrGetPlen host (octets ((p ++ t).take 20)) = p.length := by
    rw [getPlen_take (by omega), ← hplen]
    exact getPlen_congr fun i hi => octets_append (by omega)
  simp only [pktReadFile, hheader]
  rw [if_neg (by rw [List.length_append]; simp only [hdrSize]; omega),
    if_neg (by simp only [Bool.true_eq_false, or_false]; omega), if_neg (by simp only [hdrSize]; omega)]
  by_cases heq : (p.length : Int) = hdrSize
  · have heq : p.length = 20 := by
      simp only [hdrSize] at heq
      omega
    rw [if_pos (by simp only [hdrSize]; omega), List.take_left' heq, List.drop_left' heq]
  · have hpay : ((p.length : Int) - hdrSize).toNat = p.length - 20 := by
      simp only [hdrSize]
      omega
    have hdrop : (p ++ t).drop 20 = p.drop 20 ++ t := List.drop_append_of_le_length hlen
    have htail : (p.drop 20).length = p.length - 20 := List.length_drop
    rw [if_neg heq, hpay, hdrop, if_neg (by rw [List.length_append]; omega), List.drop_left' htail,
      List.take_left' htail, List.take_append_of_le_length hlen, List.take_append_drop]

theorem read_end (found : Bool) : pktReadFile host [] found = some ([], none) := by
  simp [pktReadFile, hdrSize]

theorem run_packets (ps : List (List UInt8)) (hps : ∀ p ∈ ps, Packet host p) (memory : List Bool)
    (hmemory : ∀ found ∈ memory, found = true) (hlen : memory.length = ps.length) :
    run (pktReadFile host) ps.flatten memory = some ([], ps.map some) := by
  induction ps generalizing memory with
  | nil =>
      obtain rfl := List.length_eq_zero_iff.mp hlen
      rfl
  | cons p ps ih =>
      obtain ⟨hp, hps⟩ := List.forall_mem_cons.mp hps
      rcases memory with - | ⟨found, memory⟩
      · cases hlen
      · obtain ⟨rfl, hrest⟩ := List.forall_mem_cons.mp hmemory
        refine run_cons.mpr ⟨ps.flatten, some p, ps.map some, ?_, ?_, rfl⟩
        · rw [List.flatten_cons]
          exact read_packet hp ps.flatten
        · exact ih hps memory hrest (Nat.succ.inj hlen)

theorem read_short (h : (rest.length : Int) < hdrSize) (found : Bool) :
    pktReadFile host rest found = some ([], none) := by
  rw [pktReadFile, if_pos h]

theorem read_refused (h : ¬ (rest.length : Int) < hdrSize) (hno : headerLength host rest < 0 ∨ found = false) :
    pktReadFile host rest found = some (rest.drop 20, none) := by
  rw [headerLength, ← getPlen_take (by decide : 8 ≤ 20)] at hno
  simp only [pktReadFile]
  rw [if_neg h, if_pos hno]

theorem read_header (h : ¬ (rest.length : Int) < hdrSize) (hlen : 0 ≤ headerLength host rest) :
    (headerLength host rest < hdrSize ∧ pktReadFile host rest true = none) ∨
    (hdrSize ≤ headerLength host rest ∧ rest.length < headerLength host rest ∧
      pktReadFile host rest true = some ([], none)) ∨
    (hdrSize ≤ headerLength host rest ∧ headerLength host rest ≤ rest.length ∧
      pktReadFile host rest true = some (rest.drop (headerLength host rest).toNat,
        some (rest.take (headerLength host rest).toNat))) := by
  have hplen : pkthdrGetPlen host (octets (rest.take 20)) = headerLength host rest :=
    getPlen_take (by decide)
  have hsize : hdrSize = 20 := rfl
  simp only [pktReadFile, hplen]
  rw [if_neg h, if_neg (by simp only [Bool.true_eq_false, or_false]; omega)]
  by_cases hshort : headerLength host rest < hdrSize
  · exact Or.inl ⟨hshort, if_pos hshort⟩
  refine Or.inr ?_
  rw [if_neg hshort]
  have hdrop : (rest.drop 20).length = rest.length - 20 := List.length_drop
  by_cases heq : headerLength host rest = hdrSize
  · refine Or.inr ⟨by omega, by omega, ?_⟩
    rw [if_pos heq, heq]
    rfl
  · rw [if_neg heq, hdrop]
    by_cases hcut : rest.length < headerLength host rest
    · exact Or.inl ⟨by omega, hcut, if_pos (by omega)⟩
    · refine Or.inr ⟨by omega, by omega, ?_⟩
      rw [if_neg (by omega), List.drop_drop, ← List.take_add]
      have hsum : 20 + (headerLength host rest - hdrSize).toNat = (headerLength host rest).toNat := by omega
      rw [hsum]

theorem headerLength_take {n : Nat} (hn : 8 ≤ n) :
    pkthdrGetPlen host (octets (rest.take n)) = headerLength host rest := getPlen_take hn

theorem read_some {rest' buf : List UInt8} (h : pktReadFile host rest found = some (rest', some buf)) :
    found = true ∧ GoodCall host rest rest' (some buf) := by
  have hsize : hdrSize = 20 := rfl
  by_cases hshort : (rest.length : Int) < hdrSize
  · rw [read_short hshort] at h
    cases h
  by_cases hno : headerLength host rest < 0 ∨ found = false
  · rw [read_refused hshort hno] at h
    cases h
  simp only [not_or, Bool.not_eq_false] at hno
  obtain ⟨hlen, rfl⟩ := hno
  refine ⟨rfl, Or.inr ⟨buf, rfl, ?_⟩⟩
  rcases @read_header host _ hshort (by omega) with ⟨-, hr⟩ | ⟨-, -, hr⟩ | ⟨hmin, hmax, hr⟩
  · rw [hr] at h
    cases h
  · rw [hr] at h
    cases h
  · rw [hr] at h
    cases h
    rw [headerLength_take (by omega), List.length_take, List.length_drop]
    omega

theorem safeCall_short (h : (rest.length : Int) < hdrSize) (found : Bool) : SafeCall host rest found :=
  ⟨[], none, read_short h found, Or.inl rfl⟩

theorem guarded_end (answers : List Bool) : Guarded (pktReadFile host) (SafeCall host) [] answers := by
  induction answers with
  | nil => trivial
  | cons found answers ih =>
      exact guarded_cons (safeCall_short (by decide) found) (read_short (by decide) found) ih

theorem guarded_iff_clear (answers : List Bool) (content : List UInt8) :
    Guarded (pktReadFile host) (SafeCall host) content answers ↔ Clear host answers content := by
  induction answers generalizing content with
  | nil => exact Iff.rfl
  | cons found answers ih =>
      rw [Clear]
      by_cases hshort : (content.length : Int) < hdrSize
      · rw [if_pos hshort]
        exact iff_of_true
          (guarded_cons (safeCall_short hshort found) (read_short hshort found) (guarded_end answers)) trivial
      rw [if_neg hshort]
      by_cases hno : headerLength host content < 0 ∨ found = false
      · have hr := read_refused hshort hno
        rw [if_pos hno, ← ih, Guarded]
        constructor
        · intro h
          exact h.2 _ hr
        · intro h
          exact guarded_cons ⟨_, _, hr, Or.inl rfl⟩ hr h
      rw [if_neg hno]
      simp only [not_or, Bool.not_eq_false] at hno
      obtain ⟨hlen, rfl⟩ := hno
      rcases @read_header host _ hshort (by omega) with ⟨hbad, hr⟩ | ⟨hmin, hcut, hr⟩ | ⟨hmin, hmax, hr⟩
      · constructor
        · rintro ⟨⟨rest', out, hsome, -⟩, -⟩
          rw [hr] at hsome
          cases hsome
        · intro h
          omega
      · rw [List.drop_eq_nil_of_le (by omega), ← ih]
        constructor
        · intro h
          exact ⟨hmin, h.2 _ hr⟩
        · intro h
          exact guarded_cons ⟨_, _, hr, Or.inl rfl⟩ hr h.2
      · rw [← ih]
        constructor
        · intro h
          exact ⟨hmin, h.2 _ hr⟩
        · intro h
          exact guarded_cons ⟨_, _, hr, (read_some hr).2⟩ hr h.2

theorem run_ends {outs : List (Option (List UInt8))}
    (hr : run (pktReadFile host) content answers = some (rest, outs))
    (houts : ∀ out ∈ outs, out ≠ none) : 20 * answers.length ≤ content.length := by
  induction answers generalizing content outs with
  | nil => exact Nat.zero_le _
  | cons found answers ih =>
      obtain ⟨rest', out, outs', hstep, hrest, rfl⟩ := run_cons.mp hr
      obtain ⟨hout, houts'⟩ := List.forall_mem_cons.mp houts
      obtain ⟨buf, rfl⟩ := Option.ne_none_iff_exists'.mp hout
      have hlen := ih hrest houts'
      rcases (read_some hstep).2 with h | ⟨-, -, -, -, hread⟩
      · cases h
      · rw [List.length_cons]
        omega

theorem memory_of_outs {memory js : List Bool} {outs : List (Option (List UInt8))} (ps : List (List UInt8))
    (hlen : memory.length = ps.length)
    (h : run (pktReadFile host) content (memory ++ js) = some (rest, ps.map some ++ outs)) :
    ∀ found ∈ memory, found = true := by
  induction memory generalizing content ps with
  | nil =>
      intro found hfound
      cases hfound
  | cons found memory ih =>
      rcases ps with - | ⟨p, ps⟩
      · cases hlen
      · obtain ⟨rest', out, outs', hstep, hrest, heq⟩ := run_cons.mp h
        obtain ⟨rfl, rfl⟩ := List.cons.inj heq
        exact List.forall_mem_cons.mpr ⟨(read_some hstep).1, ih ps (Nat.succ.inj hlen) hrest⟩

theorem packet_file_iff (host : Endian) (datas : List (List UInt8)) (memory : List Bool) (content : List UInt8)
    (answers : List Bool) :
    PacketFile host datas memory content answers ↔
      ((∀ data ∈ datas, Accepted host data) → memory.length = datas.length → ∀ found ∈ memory, found = true) ∧
        Clear host answers content := by
  constructor
  · rintro ⟨hround, hsafe, -⟩
    refine ⟨fun haccepted hlen => ?_, (guarded_iff_clear answers content).mp hsafe⟩
    have hr := hround haccepted hlen true
    have hmap : datas.map (fun data => some (packetOf host data)) = (datas.map (packetOf host)).map some := by
      rw [List.map_map]
      rfl
    rw [hmap] at hr
    exact memory_of_outs _ (by rw [List.length_map, hlen]) hr
  · rintro ⟨hmemory, hclear⟩
    refine ⟨fun haccepted hlen last => ?_, (guarded_iff_clear answers content).mpr hclear,
      fun rest outs hr houts => run_ends hr houts⟩
    have hps : ∀ p ∈ datas.map (packetOf host), Packet host p := by
      intro p hp
      obtain ⟨data, hdata, rfl⟩ := List.mem_map.mp hp
      exact packet_of_accepted (haccepted data hdata)
    have hread := run_packets _ hps memory (hmemory haccepted hlen) (by rw [List.length_map, hlen])
    rw [List.map_map] at hread
    rw [written_append datas haccepted]
    exact run_append hread (run_cons.mpr ⟨[], none, [], read_end last, rfl, rfl⟩)

/-- A file of zeros: malloc is asked for no octets, and the header is copied there. -/
theorem zeros_overflow : ¬ ∀ host datas memory content answers, PacketFile host datas memory content answers := by
  intro h
  have hclear := (guarded_iff_clear _ _).mp (h .big [] [] (List.replicate 20 0) [true]).safe
  rw [Clear, if_neg (by decide), if_neg (by decide)] at hclear
  exact absurd hclear.1 (by decide)

end OiAmc.PktFile
