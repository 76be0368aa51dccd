import OiTerminal.Storage.PendingOrder

/-!
# The reaper of the write-ahead log

Pending files beyond an age are deleted, oldest first, until the first one that is young enough.
Names without a time are passed over. Files may be acked in the meantime.
-/
namespace OiTerminal.Storage.Reaper

open OiTerminal.Core
open OiTerminal.Storage.ClickHouse
open OiTerminal.Storage.Decorators
open OiTerminal.Storage.PendingOrder
open OiTerminal.Storage.WalDir
open OiTerminal.Lib.Numeral

set_option autoImplicit false

/-- A number may begin with one plus sign. -/
def withoutPlus : List Char → List Char
  | '+' :: rest => rest
  | text => text

def parseU128 (text : List Char) : Option Nat :=
  let digits := withoutPlus text
  if digits ≠ [] ∧ digits.all Char.isDigit ∧ Nat.ofDigitChars 10 digits 0 < 2 ^ 128 then
    some (Nat.ofDigitChars 10 digits 0)
  else none

/-- The number before the first dash, and nothing for names of another shape. -/
def parseTsMs (name : String) : Option Nat :=
  if '-' ∈ name.toList then parseU128 (name.toList.takeWhile (· ≠ '-')) else none

/-- What the file system and the other tasks do in the course of a call: the error of the
listing, those of the removals other than a missing file, and the files that are acked before
the turn of each name. -/
structure Io where
  list : Option CoreError
  remove : String → Option CoreError
  acked : String → List String

/-- `removed` records what the reaper itself has removed, and influences nothing. -/
structure Reaping where
  files : Files
  removed : List String

def ackAll (names : List String) (files : Files) : Files :=
  names.foldl (fun files name => files.erase name) files

inductive RemoveFile where
  | removed
  | notFound
  | failed (e : CoreError)

def removeFile (io : Io) (path : String) (files : Files) : RemoveFile :=
  match files.lookup path, io.remove path with
  | none, _ => .notFound
  | some _, some e => .failed e
  | some _, none => .removed

section

variable (io : Io) (nowMs cutoffMs : Nat)

/-- The loop over the pending names, with the count so far. -/
def reapLoop : List String → Nat → Op Reaping Nat
  | [], reaped => fun s => (.ok reaped, s)
  | path :: rest, reaped => fun before =>
    let s : Reaping := ⟨ackAll (io.acked path) before.files, before.removed⟩
    match parseTsMs path with
    | none => reapLoop rest reaped s
    | some tsMs =>
      -- sorted oldest first, so all later ones count as young too
      if nowMs - tsMs ≤ cutoffMs then (.ok reaped, s)
      else
        match removeFile io path s.files with
        | .removed => reapLoop rest (reaped + 1) ⟨s.files.erase path, s.removed ++ [path]⟩
        | .notFound => reapLoop rest reaped s
        | .failed e => (.error e, s)

/-- The age is a duration in nanoseconds, of which the cutoff keeps the milliseconds. -/
def reapOlderThan (maxAge : Nat) (files : Files) : Except CoreError Nat × Reaping :=
  match io.list with
  | some e => (.error e, ⟨files, []⟩)
  | none => reapLoop io nowMs (maxAge / 10 ^ 6) files.pending 0 ⟨files, []⟩

end

/-- Thirteen digits before the first dash. -/
def MsPrefixed (name : String) : Prop :=
  ∃ digits rest, name.toList = digits ++ '-' :: rest ∧ digits.length = 13 ∧
    ∀ c ∈ digits, c.isDigit = true

/-- The time in the name is more than the age, in nanoseconds, before now. -/
def Aged (nowMs maxAge : Nat) (name : String) : Prop :=
  ∃ tsMs, parseTsMs name = some tsMs ∧ tsMs * 10 ^ 6 + maxAge < nowMs * 10 ^ 6

variable {io : Io} {nowMs maxAge : Nat} {name other : String} {files : Files}

theorem isDigit_ne_dash {c : Char} (h : c.isDigit = true) : c ≠ '-' := by
  rintro rfl
  exact absurd h (by decide)

theorem isDigit_ne_plus {c : Char} (h : c.isDigit = true) : c ≠ '+' := by
  rintro rfl
  exact absurd h (by decide)

theorem takeWhile_digits {digits rest : List Char} (h : ∀ c ∈ digits, c.isDigit = true) :
    (digits ++ '-' :: rest).takeWhile (· ≠ '-') = digits := by
  rw [List.takeWhile_append_of_pos fun c hc => decide_eq_true (isDigit_ne_dash (h c hc))]
  simp

theorem parseU128_digits {digits : List Char} (hne : digits ≠ [])
    (h : ∀ c ∈ digits, c.isDigit = true) (hbound : Nat.ofDigitChars 10 digits 0 < 2 ^ 128) :
    parseU128 digits = some (Nat.ofDigitChars 10 digits 0) := by
  have hsign : withoutPlus digits = digits := by
    unfold withoutPlus
    split
    · exact absurd rfl (isDigit_ne_plus (h '+' List.mem_cons_self))
    · rfl
  unfold parseU128
  dsimp only
  rw [hsign, if_pos ⟨hne, List.all_eq_true.mpr h, hbound⟩]

/-- A name with thirteen digits before the dash has their value for its time. -/
theorem parseTsMs_of_digits {digits rest : List Char} (hname : name.toList = digits ++ '-' :: rest)
    (hlen : digits.length = 13) (h : ∀ c ∈ digits, c.isDigit = true) :
    parseTsMs name = some (Nat.ofDigitChars 10 digits 0) := by
  have hne : digits ≠ [] := List.ne_nil_of_length_pos (by omega)
  have hpow := ofDigitChars_lt_pow h
  rw [hlen] at hpow
  unfold parseTsMs
  rw [if_pos (by rw [hname]; simp), hname, takeWhile_digits h,
    parseU128_digits hne h (hpow.trans (by decide))]

/-- The names that `append` gives carry their time. -/
theorem msPrefixed_fileName {id : WalName} (h : DigitsOfMs id.tsMs) :
    MsPrefixed id.fileName ∧ parseTsMs id.fileName = some id.tsMs := by
  have hdigits : ∀ c ∈ Nat.toDigits 10 id.tsMs, c.isDigit = true := fun c hc =>
    Nat.isDigit_of_mem_toDigits (by decide) le_rfl hc
  have hname := toList_fileName id
  rw [List.cons_append] at hname
  refine ⟨⟨_, _, hname, length_digitsOfMs h, hdigits⟩, ?_⟩
  rw [parseTsMs_of_digits hname (length_digitsOfMs h) hdigits, Nat.ofDigitChars_ten_toDigits]

/-- Of two such names the later one has no earlier time. -/
theorem ts_le_of_le {a b : String} {tsA tsB : Nat} (hle : a ≤ b) (ha : MsPrefixed a)
    (hb : MsPrefixed b) (htsA : parseTsMs a = some tsA) (htsB : parseTsMs b = some tsB) :
    tsA ≤ tsB := by
  obtain ⟨xs, s, hnameA, hlenA, hdigitsA⟩ := ha
  obtain ⟨ys, t, hnameB, hlenB, hdigitsB⟩ := hb
  rw [parseTsMs_of_digits hnameA hlenA hdigitsA] at htsA
  rw [parseTsMs_of_digits hnameB hlenB hdigitsB] at htsB
  obtain rfl := Option.some.inj htsA
  obtain rfl := Option.some.inj htsB
  rw [String.le_iff_toList_le, hnameA, hnameB, le_iff_lt_or_eq,
    append_lt_append_iff (hlenA.trans hlenB.symm)] at hle
  have heq_of_append : xs ++ '-' :: s = ys ++ '-' :: t → xs = ys := fun h =>
    (List.append_inj h (hlenA.trans hlenB.symm)).1
  rcases hle with (hlt | ⟨rfl, -⟩) | heq
  · exact (ofDigitChars_lt_of_lt (hlenA.trans hlenB.symm) hdigitsA hdigitsB hlt).le
  · exact le_rfl
  · rw [heq_of_append heq]

/-- The test of the loop, for a name with a time. -/
theorem young_iff {tsMs : Nat} (h : parseTsMs name = some tsMs) :
    nowMs - tsMs ≤ maxAge / 10 ^ 6 ↔ ¬ Aged nowMs maxAge name := by
  unfold Aged
  rw [h]
  simp only [Option.some.injEq, exists_eq_left', not_lt]
  omega

/-- For the names of the log's own appends this is the test of the abstract reaper, with the age
in whole milliseconds. -/
theorem aged_fileName_iff {id : WalName} (h : DigitsOfMs id.tsMs) :
    Aged nowMs maxAge id.fileName ↔ id.Aged (maxAge / 10 ^ 6) nowMs := by
  unfold WalName.Aged
  rw [← not_iff_not, ← young_iff (msPrefixed_fileName h).2, not_lt]

/-- What is listed after a young name is young or has no time. -/
theorem not_aged_of_le (hle : name ≤ other) (hname : MsPrefixed name)
    (hother : MsPrefixed other ∨ parseTsMs other = none) (hyoung : ¬ Aged nowMs maxAge name) :
    ¬ Aged nowMs maxAge other := by
  intro haged
  obtain ⟨tsMs, hts, hlt⟩ := haged
  have hparsed := hother.resolve_right (by rw [hts]; exact Option.some_ne_none tsMs)
  obtain ⟨digits, rest, hchars, hlen, hdigits⟩ := hname
  have htsName := parseTsMs_of_digits hchars hlen hdigits
  have hle_ts := ts_le_of_le hle ⟨digits, rest, hchars, hlen, hdigits⟩ hparsed htsName hts
  have hmul := Nat.mul_le_mul_right (10 ^ 6) hle_ts
  exact hyoung ⟨_, htsName, (Nat.add_le_add_right hmul maxAge).trans_lt hlt⟩

theorem lookup_ackAll_of_notMem {names : List String} (h : name ∉ names) (files : Files) :
    (ackAll names files).lookup name = files.lookup name := by
  induction names generalizing files with
  | nil => rfl
  | cons acked rest ih =>
    obtain ⟨hne, hrest⟩ := not_or.mp (mt List.mem_cons.mpr h)
    exact (ih hrest _).trans (AList.lookup_erase_ne hne)

theorem lookup_ackAll_of_none {names : List String} (h : files.lookup name = none) :
    (ackAll names files).lookup name = none := by
  induction names generalizing files with
  | nil => exact h
  | cons acked rest ih =>
    refine ih ?_
    by_cases heq : name = acked
    · rw [heq]
      exact AList.lookup_erase acked files
    · exact (AList.lookup_erase_ne heq).trans h

/-- What the loop does to a list of names that it goes through or gives up: the names that it
removes itself, and the files before and after. -/
structure Reaps (io : Io) (nowMs maxAge : Nat) (paths : List String) (s : Reaping)
    (mine : List String) (t : Reaping) : Prop where
  removed : t.removed = s.removed ++ mine
  own : mine.Sublist paths
  aged : ∀ path ∈ mine, Aged nowMs maxAge path
  gone : ∀ path ∈ paths, Aged nowMs maxAge path → t.files.lookup path = none
  others : ∀ name, name ∉ mine → (∀ path ∈ paths, name ∉ io.acked path) →
    t.files.lookup name = s.files.lookup name
  missing : ∀ name, s.files.lookup name = none → t.files.lookup name = none

/-- Nothing in the rest is aged, and the loop ends after the acks. -/
theorem reaps_of_young {path : String} {rest : List String} {s : Reaping}
    (h : ∀ p ∈ path :: rest, ¬ Aged nowMs maxAge p) :
    Reaps io nowMs maxAge (path :: rest) s [] ⟨ackAll (io.acked path) s.files, s.removed⟩ where
  removed := (List.append_nil _).symm
  own := List.nil_sublist _
  aged := List.forall_mem_nil _
  gone p hp haged := absurd haged (h p hp)
  others _ _ hacked := lookup_ackAll_of_notMem (hacked path List.mem_cons_self) _
  missing _ := lookup_ackAll_of_none

/-- The first name is passed over: it has no time, or it has been acked. -/
theorem Reaps.pass {path : String} {rest mine : List String} {s t : Reaping}
    (h : Reaps io nowMs maxAge rest ⟨ackAll (io.acked path) s.files, s.removed⟩ mine t)
    (hpath : Aged nowMs maxAge path → (ackAll (io.acked path) s.files).lookup path = none) :
    Reaps io nowMs maxAge (path :: rest) s mine t where
  removed := h.removed
  own := h.own.cons path
  aged := h.aged
  gone p hp haged := by
    rcases List.mem_cons.mp hp with rfl | hp
    · exact h.missing p (hpath haged)
    · exact h.gone p hp haged
  others name hmine hacked := by
    rw [h.others name hmine fun p hp => hacked p (List.mem_cons_of_mem path hp)]
    exact lookup_ackAll_of_notMem (hacked path List.mem_cons_self) _
  missing name hname := h.missing name (lookup_ackAll_of_none hname)

/-- The first name is removed. -/
theorem Reaps.remove {path : String} {rest mine : List String} {s t : Reaping}
    (h : Reaps io nowMs maxAge rest
      ⟨(ackAll (io.acked path) s.files).erase path, s.removed ++ [path]⟩ mine t)
    (haged : Aged nowMs maxAge path) :
    Reaps io nowMs maxAge (path :: rest) s (path :: mine) t where
  removed := by rw [h.removed, List.append_assoc, List.singleton_append]
  own := h.own.cons_cons path
  aged := List.forall_mem_cons.mpr ⟨haged, h.aged⟩
  gone p hp hp' := by
    rcases List.mem_cons.mp hp with rfl | hp
    · exact h.missing p (AList.lookup_erase p _)
    · exact h.gone p hp hp'
  others name hmine hacked := by
    obtain ⟨hne, hmine⟩ := not_or.mp (mt List.mem_cons.mpr hmine)
    rw [h.others name hmine fun p hp => hacked p (List.mem_cons_of_mem path hp)]
    exact (AList.lookup_erase_ne hne).trans
      (lookup_ackAll_of_notMem (hacked path List.mem_cons_self) _)
  missing name hname := by
    refine h.missing name ?_
    by_cases heq : name = path
    · rw [heq]
      exact AList.lookup_erase path _
    · exact (AList.lookup_erase_ne heq).trans (lookup_ackAll_of_none hname)

theorem reapLoop_reaps {paths : List String} (hsorted : paths.Pairwise (· ≤ ·))
    (hnames : ∀ path ∈ paths, MsPrefixed path ∨ parseTsMs path = none)
    (hremove : ∀ path ∈ paths, Aged nowMs maxAge path → io.remove path = none) (reaped : Nat)
    (s : Reaping) : ∃ mine t,
      reapLoop io nowMs (maxAge / 10 ^ 6) paths reaped s = (.ok (reaped + mine.length), t) ∧
        Reaps io nowMs maxAge paths s mine t := by
  induction paths generalizing reaped s with
  | nil =>
    exact ⟨[], s, rfl, (List.append_nil _).symm, List.nil_sublist _, List.forall_mem_nil _,
      List.forall_mem_nil _, fun _ _ _ => rfl, fun _ h => h⟩
  | cons path rest ih =>
    obtain ⟨hfirst, hrest⟩ := List.pairwise_cons.mp hsorted
    have ih := ih hrest (fun p hp => hnames p (List.mem_cons_of_mem path hp))
      (fun p hp => hremove p (List.mem_cons_of_mem path hp))
    unfold reapLoop
    dsimp only
    cases hts : parseTsMs path with
    | none =>
      obtain ⟨mine, t, hloop, hreaps⟩ := ih reaped _
      refine ⟨mine, t, hloop, hreaps.pass ?_⟩
      intro haged
      obtain ⟨tsMs, hsome, -⟩ := haged
      rw [hts] at hsome
      cases hsome
    | some tsMs =>
      dsimp only
      have hname := (hnames path List.mem_cons_self).resolve_right
        (by rw [hts]; exact Option.some_ne_none tsMs)
      by_cases hyoung : nowMs - tsMs ≤ maxAge / 10 ^ 6
      · have hpath := (young_iff hts).mp hyoung
        refine ⟨[], _, by rw [if_pos hyoung]; rfl, reaps_of_young ?_⟩
        intro p hp
        rcases List.mem_cons.mp hp with rfl | hp
        · exact hpath
        · exact not_aged_of_le (hfirst p hp) hname (hnames p (List.mem_cons_of_mem path hp)) hpath
      · have haged : Aged nowMs maxAge path := by
          by_contra hnot
          exact hyoung ((young_iff hts).mpr hnot)
        rw [if_neg hyoung]
        unfold removeFile
        rw [hremove path List.mem_cons_self haged]
        cases hlookup : (ackAll (io.acked path) s.files).lookup path with
        | none =>
          obtain ⟨mine, t, hloop, hreaps⟩ := ih reaped ⟨ackAll (io.acked path) s.files, s.removed⟩
          exact ⟨mine, t, hloop, hreaps.pass fun _ => hlookup⟩
        | some bytes =>
          obtain ⟨mine, t, hloop, hreaps⟩ := ih (reaped + 1)
            ⟨(ackAll (io.acked path) s.files).erase path, s.removed ++ [path]⟩
          refine ⟨path :: mine, t, ?_, hreaps.remove haged⟩
          rw [List.length_cons, Nat.add_comm mine.length 1, ← Nat.add_assoc]
          exact hloop

/-- In a directory whose pending names have thirteen digits before the first dash or no time,
whatever is acked in the course of the call: if no removal of an aged file fails, all aged files
are gone, the reaper has removed aged files only and each of them once, it returns their number,
and every file that is neither among them nor acked is as it was. -/
theorem reapOlderThan_exact (io : Io) (nowMs maxAge : Nat) (files : Files) (hlist : io.list = none)
    (hnames : ∀ name ∈ files.pending, MsPrefixed name ∨ parseTsMs name = none)
    (hremove : ∀ name ∈ files.pending, Aged nowMs maxAge name → io.remove name = none) :
    ∃ t, reapOlderThan io nowMs maxAge files = (.ok t.removed.length, t) ∧
      t.removed.Nodup ∧
      (∀ name ∈ t.removed, name ∈ files.pending ∧ Aged nowMs maxAge name) ∧
      (∀ name ∈ files.pending, Aged nowMs maxAge name → t.files.lookup name = none) ∧
      ∀ name, name ∉ t.removed → (∀ path ∈ files.pending, name ∉ io.acked path) →
        t.files.lookup name = files.lookup name := by
  obtain ⟨mine, t, hloop, hreaps⟩ :=
    reapLoop_reaps (pending_pairwise files) hnames hremove 0 ⟨files, []⟩
  have hmine : t.removed = mine := hreaps.removed
  refine ⟨t, ?_, ?_, ?_, hreaps.gone, ?_⟩
  · unfold reapOlderThan
    rw [hlist, hmine]
    dsimp only
    rw [hloop, Nat.zero_add]
  · rw [hmine]
    exact hreaps.own.nodup files.pending_nodup
  · rw [hmine]
    exact fun name hname => ⟨hreaps.own.subset hname, hreaps.aged name hname⟩
  · rw [hmine]
    exact hreaps.others

def oldId : WalName := ⟨1700000000000, 7, 0⟩

def youngId : WalName := ⟨1700000005000, 7, 1⟩

/-- An old file, a younger one and one without a time. -/
def threeFiles : Files :=
  ((AList.insert oldId.fileName [] ∅).insert youngId.fileName []).insert "legacy.mpk" []

theorem names_threeFiles : ∀ name ∈ threeFiles.pending,
    name = "legacy.mpk" ∨ name = youngId.fileName ∨ name = oldId.fileName := by
  intro name hname
  obtain ⟨-, bytes, hlookup⟩ := Files.mem_pending.mp hname
  have hmem : name ∈ threeFiles := AList.mem_keys.mp (AList.lookup_isSome.mp (by rw [hlookup]; rfl))
  unfold threeFiles at hmem
  rwa [AList.mem_insert, AList.mem_insert, AList.mem_insert,
    or_iff_left (AList.notMem_empty name)] at hmem

theorem digits_ids : DigitsOfMs oldId.tsMs ∧ DigitsOfMs youngId.tsMs := by
  unfold DigitsOfMs
  decide

theorem lookup_youngId : threeFiles.lookup youngId.fileName = some [] :=
  (AList.lookup_insert_ne (by decide +kernel)).trans (AList.lookup_insert _)

/-- Ten and five seconds later, with an age of eight seconds. -/
theorem reaps_old_file : ∃ t,
    reapOlderThan ⟨none, fun _ => none, fun _ => []⟩ 1700000010000 8000000000 threeFiles =
        (.ok t.removed.length, t) ∧
      t.files.lookup oldId.fileName = none ∧ t.files.lookup youngId.fileName = some [] := by
  obtain ⟨t, hresult, -, hremoved, hgone, hothers⟩ := reapOlderThan_exact
    ⟨none, fun _ => none, fun _ => []⟩ 1700000010000 8000000000 threeFiles rfl
    (by
      intro name hname
      rcases names_threeFiles name hname with rfl | rfl | rfl
      · exact .inr (by decide +kernel)
      · exact .inl (msPrefixed_fileName digits_ids.2).1
      · exact .inl (msPrefixed_fileName digits_ids.1).1)
    (fun _ _ _ => rfl)
  have hold : Aged 1700000010000 8000000000 oldId.fileName :=
    (aged_fileName_iff digits_ids.1).mpr (by decide)
  have hyoung : ¬ Aged 1700000010000 8000000000 youngId.fileName := by
    rw [aged_fileName_iff digits_ids.2]
    decide
  refine ⟨t, hresult, hgone _ ?_ hold, ?_⟩
  · refine Files.mem_pending.mpr ⟨isPending_fileName oldId, [], ?_⟩
    exact (AList.lookup_insert_ne (by decide +kernel)).trans
      ((AList.lookup_insert_ne (by decide +kernel)).trans (AList.lookup_insert _))
  · rw [hothers _ (fun hmine => hyoung (hremoved _ hmine).2) fun _ _ => List.not_mem_nil,
      lookup_youngId]

end OiTerminal.Storage.Reaper
