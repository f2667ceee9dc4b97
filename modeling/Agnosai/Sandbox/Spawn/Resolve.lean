import Agnosai.Sandbox.Spawn.Deadline

/-!
# Sandbox — which file a spawn executes

`_agnosai_spawn_resolve` (`sandbox/spawn.cyr`) looks a program name up on the `PATH` of the child's
environment block, in the parent. The child then changes its directory and execs what came back.
Where the search finds nothing it gives the name back as it was, and an `execve` of a name without
a slash looks in the directory the child is in. And an entry that reads `PATH` with no `=` counts
as the variable, whose value is then taken from behind the entry's end.
-/

namespace Agnosai.Spawn

open List Option

/-! ### Files -/

/-- What a path leads to. -/
structure File where
  id : Nat
  /-- `access(X_OK)`, which a directory that may be searched passes too. -/
  access : Bool
  /-- Whether `execve` can run it. -/
  runs : Bool
  /-- Whether `chdir` can enter it. -/
  directory : Bool
  deriving DecidableEq

/-- A filesystem, by absolute path. Several paths may lead to one file. -/
abbrev Filesystem := Bytes → Option File

/-- A path as seen from `cwd`. -/
def absolute (cwd path : Bytes) : Bytes :=
  if path.head? = some 47 then path else cwd ++ ascii "/" ++ path

variable (fs : Filesystem)

/-- The file at a path; the empty path leads nowhere. -/
def Filesystem.open (cwd path : Bytes) : Option File :=
  if path = [] then none else fs (absolute cwd path)

/-- `sys_access(path, AGNOSAI_SPAWN_X_OK) == 0`. -/
def Filesystem.xOk (cwd path : Bytes) : Bool :=
  (fs.open cwd path).any File.access

/-! ### The environment block -/

/-- An entry of an environment block: its text, and what memory holds between the text's terminator
and the next zero byte. -/
structure Entry where
  text : Bytes
  beyond : Bytes

/-- A byte of the block that is read: of which entry, and how far in. -/
structure Read where
  entry : Nat
  offset : Nat
  deriving DecidableEq

/-- The byte belongs to the entry's text or is its terminator. -/
def Read.Inside (envp : List Entry) (r : Read) : Prop :=
  ∃ e, envp[r.entry]? = some e ∧ r.offset ≤ e.text.length

/-- The string at `entry + k`. -/
def Entry.from (e : Entry) (k : Nat) : Bytes :=
  if k ≤ e.text.length then e.text.drop k else e.beyond.drop (k - e.text.length - 1)

/-- `_agnosai_env_entry_name`: all of an entry that has no `=`. -/
def entryName (e : Entry) : Bytes := e.text.takeWhile (· != 61)

/-- The bytes `_agnosai_env_entry_name` reads of the `i`-th entry, up to the one that stops it. -/
def nameReads (i : Nat) (e : Entry) : List Read :=
  (range ((entryName e).length + 1)).map (Read.mk i)

/-- The first entry of that name, with its index, and what was read on the way. -/
def findEntry (name : Bytes) : Nat → List Entry → Option (Nat × Entry) × List Read
  | _, [] => (none, [])
  | i, e :: es =>
    if entryName e = name then (some (i, e), nameReads i e)
    else ((findEntry name (i + 1) es).1, nameReads i e ++ (findEntry name (i + 1) es).2)

/-- `agnosai_is_sanitized_env_var`. -/
def isSanitizedEnvVar (name : Bytes) : Bool :=
  name ∈ [ascii "LD_PRELOAD", ascii "LD_LIBRARY_PATH", ascii "DYLD_INSERT_LIBRARIES",
    ascii "DYLD_LIBRARY_PATH"]

/-- `_agnosai_sanitized_envp_of`. -/
def sanitizedEnvp (envp : List Entry) : List Entry :=
  envp.filter fun e => !isSanitizedEnvVar (entryName e)

/-! ### The search -/

/-- `AGNOSAI_SPAWN_DEFAULT_PATH`. -/
def defaultPath : Bytes := ascii "/bin:/usr/bin"

def candidate (name dir : Bytes) : Bytes := dir ++ ascii "/" ++ name

/-- The candidate of a segment, if the segment is not empty and the candidate is executable. -/
def tryDir (cwd name dir : Bytes) : Option Bytes :=
  if dir ≠ [] ∧ fs.xOk cwd (candidate name dir) then some (candidate name dir) else none

/-- The loop over the path: `dir` is the segment read so far, the next byte is the `j`-th. The
answer comes with the number of bytes read, the terminator among them. -/
def search (fs : Filesystem) (cwd name : Bytes) : Bytes → Bytes → Nat → Option Bytes × Nat
  | dir, [], j => (tryDir fs cwd name dir, j + 1)
  | dir, c :: path, j =>
    if c = 58 then
      match tryDir fs cwd name dir with
      | some cand => (some cand, j + 1)
      | none => search fs cwd name [] path (j + 1)
    else search fs cwd name (dir ++ [c]) path (j + 1)

/-- What is to be executed, and what was read of the environment block to find it. -/
structure Resolved where
  prog : Bytes
  reads : List Read

/-- `_agnosai_spawn_resolve`. -/
def resolve (cwd name : Bytes) (envp : List Entry) : Resolved :=
  if 47 ∈ name then ⟨name, []⟩
  else
    match findEntry (ascii "PATH") 0 envp with
    | (none, reads) => ⟨(search fs cwd name [] defaultPath 0).1.getD name, reads⟩
    | (some (i, e), reads) =>
      -- `+ 5` steps over `PATH=`.
      let found := search fs cwd name [] (e.from 5) 0
      ⟨found.1.getD name, reads ++ (range found.2).map fun j => ⟨i, 5 + j⟩⟩

/-- `_agnosai_cx_resolve_interpreter`. -/
def resolveInterpreter (cwd name : Bytes) (environ : List Entry) : Option Bytes :=
  let p := (resolve fs cwd name (sanitizedEnvp environ)).prog
  if p.head? ≠ some 47 then none
  else if fs.xOk cwd p then some p
  else none

/-! ### The child -/

/-- `AGNOSAI_SPAWN_FAIL_EXEC`. -/
def failExec : Int := 1

/-- `AGNOSAI_SPAWN_FAIL_CHDIR`. -/
def failChdir : Int := 2

/-- What becomes of the child: it runs a file, or it reports why it does not. -/
inductive Exec where
  | ran (f : File)
  | failed (reason : Int)

/-- What the child wrote to the exec pipe. -/
def Exec.report : Exec → Option Int
  | .ran _ => none
  | .failed reason => some reason

def Exec.file : Exec → Option File
  | .ran f => some f
  | .failed _ => none

/-- The directory the child execs in. -/
def childDir (cwd : Bytes) : Option Bytes → Bytes
  | none => cwd
  | some workDir => absolute cwd workDir

/-- `chdir(work_dir)`, where there is one. -/
def chdirOk (cwd : Bytes) : Option Bytes → Bool
  | none => true
  | some workDir => (fs.open cwd workDir).any File.directory

/-- `execve`. -/
def execve (cwd prog : Bytes) : Exec :=
  match fs.open cwd prog with
  | some f => if f.runs then .ran f else .failed failExec
  | none => .failed failExec

/-- The child, from the fork on. -/
def child (cwd prog : Bytes) (workDir : Option Bytes) : Exec :=
  if chdirOk fs cwd workDir then execve fs (childDir cwd workDir) prog else .failed failChdir

/-- Everything a spawn meets: the files and the directory of the parent, the set-up calls, and for
whatever comes of the exec how the child and the kernel go on from there. A child that runs nothing
exits, and with it go the write ends of its pipes. -/
structure Host where
  fs : Filesystem
  cwd : Bytes
  pipe : Nat → Bool
  cloexec : Bool
  fork : Bool
  goesOn : Exec → World
  exits : ∀ reason, ∃ n, ((goesOn (.failed reason)).turn n).stdout = some [] ∧
    ((goesOn (.failed reason)).turn n).stderr = some []
  ends : ∀ reason, (goesOn (.failed reason)).ends ≠ none

namespace Host

variable (h : Host) (name : Bytes) (envp : List Entry) (workDir : Option Bytes)

/-- What comes of the exec of `name`. -/
def exec : Exec := child h.fs h.cwd (resolve h.fs h.cwd name envp).prog workDir

/-- The world of the loop in `agnosai_spawn_capture_input`. -/
def world : World :=
  { h.goesOn (h.exec name envp workDir) with
    pipe := h.pipe
    cloexec := h.cloexec
    fork := h.fork
    report := (h.exec name envp workDir).report }

/-- `agnosai_spawn_capture_input`, with the program it runs. -/
def spawn (input : Bytes) (timeout : Int64) (fuel : Nat) : Option Outcome :=
  captureInput (h.world name envp workDir) input timeout fuel

/-- Whether the pipes could be made, after which the search begins. -/
def piped : Bool := (range 4).all h.pipe && h.cloexec

/-- The file a spawn executes, if it comes to that. -/
def executed : Option File :=
  if h.piped && h.fork then (h.exec name envp workDir).file else none

/-- What a spawn reads of the environment block. -/
def reads : List Read := if h.piped then (resolve h.fs h.cwd name envp).reads else []

end Host

/-! ### What the search is for -/

/-- The value of an entry `PATH=value`. -/
def pathValue (e : Entry) : Option Bytes :=
  if e.text.take 5 = ascii "PATH=" then some (e.text.drop 5) else none

/-- The `PATH` the child sees, or the default where the block has none. -/
def childPath (envp : List Entry) : Bytes := (envp.findSome? pathValue).getD defaultPath

/-- Its directories. -/
def pathDirs (envp : List Entry) : List Bytes := ((childPath envp).splitOn 58).filter (· ≠ [])

/-- **What a spawn of `name` is to do.** The file it executes runs and is found under the name in a
directory of the child's `PATH`, seen from where the child is; so a file that is found only in the
child's or the parent's own directory is not executed. Where no directory has such a file the spawn
returns a failure. And the search reads nothing but the entries. -/
structure SearchesPath (h : Host) (name : Bytes) (envp : List Entry) (workDir : Option Bytes) :
    Prop where
  found : ∀ f, h.executed name envp workDir = some f → f.runs = true ∧
    ∃ dir ∈ pathDirs envp, h.fs.open (childDir h.cwd workDir) (candidate name dir) = some f
  notFound : (∀ dir ∈ pathDirs envp, ∀ f,
      h.fs.open (childDir h.cwd workDir) (candidate name dir) = some f → f.runs = false) →
    ∀ input timeout, ∃ fuel r calls,
      h.spawn name envp workDir input timeout fuel = some (.returned r calls) ∧
        r.status = spawnFailed
  inside : ∀ r ∈ h.reads name envp, r.Inside envp

/-- The first entry called `PATH`, if there is one, has a value. -/
def Valued (envp : List Entry) : Prop :=
  ∀ e, envp.find? (fun e => entryName e == ascii "PATH") = some e → e.text ≠ ascii "PATH"

/-- So it is once the search begins. -/
def Host.PathHasValue (h : Host) (envp : List Entry) : Prop := h.piped = true → Valued envp

/-- Where no directory of the child's `PATH` has an executable of that name as the parent sees it,
what the child has under the name in its own directory does not run or is in a directory of its
`PATH`. -/
def Host.NothingPlanted (h : Host) (name : Bytes) (envp : List Entry) (workDir : Option Bytes) :
    Prop :=
  h.piped = true → h.fork = true → chdirOk h.fs h.cwd workDir = true →
    (∀ dir ∈ pathDirs envp, h.fs.xOk h.cwd (candidate name dir) = false) →
    ∀ f, h.fs.open (childDir h.cwd workDir) name = some f → f.runs = true →
      ∃ dir ∈ pathDirs envp, h.fs.open (childDir h.cwd workDir) (candidate name dir) = some f

/-! ### The search, step by step -/

section Search

variable {fs : Filesystem} {cwd name : Bytes}

theorem tryDir_eq_some {dir p : Bytes} :
    tryDir fs cwd name dir = some p ↔
      (dir ≠ [] ∧ fs.xOk cwd (candidate name dir) = true) ∧ candidate name dir = p := by
  rw [tryDir, ite_none_right_eq_some, some.injEq]

/-- The loop tries the segments in turn, the first of them with what has been read of it. -/
theorem search_fst (dir path : Bytes) (j : Nat) :
    (search fs cwd name dir path j).1 =
      ((path.splitOn 58).modifyHead (dir ++ ·)).findSome? (tryDir fs cwd name) := by
  induction path generalizing dir j with
  | nil => simp [search, splitOn, splitOnP_nil]
  | cons c path ih =>
    rw [search, splitOn, splitOnP_cons_eq_if_modifyHead]
    by_cases hc : c = 58
    · rw [if_pos hc, if_pos (beq_iff_eq.2 hc)]
      rw [modifyHead_cons, append_nil, findSome?_cons]
      cases htry : tryDir fs cwd name dir with
      | some => rfl
      | none =>
        refine (ih [] (j + 1)).trans ?_
        rw [splitOn]
        cases splitOnP (· == 58) path <;> rfl
    · rw [if_neg hc, if_neg (mt beq_iff_eq.1 hc), ih, modifyHead_modifyHead]
      have happ : ((dir ++ [c]) ++ ·) = (dir ++ ·) ∘ cons c := by
        funext rest
        exact append_assoc dir [c] rest
      rw [happ]
      rfl

/-- From the start of a path it tries them all. -/
theorem search_nil (path : Bytes) :
    (search fs cwd name [] path 0).1 = (path.splitOn 58).findSome? (tryDir fs cwd name) := by
  rw [search_fst]
  exact congrArg (findSome? _) (congrFun modifyHead_id _)

theorem search_eq_none {path : Bytes} (h : (search fs cwd name [] path 0).1 = none) {dir : Bytes}
    (hdir : dir ∈ (path.splitOn 58).filter (· ≠ [])) : fs.xOk cwd (candidate name dir) = false := by
  rw [search_nil, findSome?_eq_none_iff] at h
  obtain ⟨hmem, hne⟩ := mem_filter.1 hdir
  refine Bool.eq_false_iff.2 fun hx => ?_
  have hfound := tryDir_eq_some.2 ⟨⟨of_decide_eq_true hne, hx⟩, rfl⟩
  cases (h dir hmem).symm.trans hfound

theorem search_eq_some {path p : Bytes} (h : (search fs cwd name [] path 0).1 = some p) :
    ∃ dir ∈ (path.splitOn 58).filter (· ≠ []), fs.xOk cwd p = true ∧ p = candidate name dir := by
  rw [search_nil] at h
  obtain ⟨dir, hmem, htry⟩ := exists_of_findSome?_eq_some h
  obtain ⟨⟨hne, hok⟩, rfl⟩ := tryDir_eq_some.1 htry
  exact ⟨dir, mem_filter.2 ⟨hmem, decide_eq_true hne⟩, hok, rfl⟩

/-- The loop reads at least one byte, and none behind the terminator. -/
theorem search_snd (fs : Filesystem) (cwd name dir path : Bytes) (j : Nat) :
    j < (search fs cwd name dir path j).2 ∧
      (search fs cwd name dir path j).2 ≤ j + path.length + 1 := by
  induction path generalizing dir j with
  | nil => exact ⟨Nat.lt_succ_self j, le_rfl⟩
  | cons c path ih =>
    have hlen : (c :: path).length = path.length + 1 := rfl
    rw [search]
    split
    · split
      · omega
      · have hrest := ih [] (j + 1)
        omega
    · have hrest := ih (dir ++ [c]) (j + 1)
      omega

end Search

/-! ### The variable -/

variable {e : Entry} {envp : List Entry} {s : Drain}

theorem nameReads_offset {i : Nat} {r : Read} (hr : r ∈ nameReads i e) :
    r.entry = i ∧ r.offset ≤ e.text.length := by
  obtain ⟨k, hk, rfl⟩ := mem_map.1 hr
  refine ⟨rfl, le_trans (Nat.le_of_lt_succ (mem_range.1 hk)) ?_⟩
  exact (List.takeWhile_prefix _).length_le

theorem findEntry_fst (name : Bytes) (i : Nat) (envp : List Entry) :
    (findEntry name i envp).1.map Prod.snd = envp.find? (fun e => entryName e == name) := by
  induction envp generalizing i with
  | nil => rfl
  | cons e es ih =>
    rw [findEntry, find?_cons]
    by_cases he : entryName e = name
    · rw [if_pos he, beq_iff_eq.2 he]
      rfl
    · rw [if_neg he, beq_eq_false_iff_ne.2 he]
      exact ih (i + 1)

theorem findEntry_index {name : Bytes} {i k : Nat}
    (h : (findEntry name i envp).1 = some (k, e)) : ∃ m, k = i + m ∧ envp[m]? = some e := by
  induction envp generalizing i with
  | nil => cases h
  | cons e' es ih =>
    rw [findEntry] at h
    split at h
    · cases h
      exact ⟨0, rfl, rfl⟩
    · obtain ⟨m, rfl, hm⟩ := ih h
      exact ⟨m + 1, by omega, hm⟩

theorem findEntry_reads {name : Bytes} {i : Nat} {r : Read} (hr : r ∈ (findEntry name i envp).2) :
    ∃ m e, r.entry = i + m ∧ envp[m]? = some e ∧ r.offset ≤ e.text.length := by
  induction envp generalizing i with
  | nil => cases hr
  | cons e' es ih =>
    have hhead : r ∈ nameReads i e' →
        ∃ m e, r.entry = i + m ∧ (e' :: es)[m]? = some e ∧ r.offset ≤ e.text.length := fun hr =>
      ⟨0, e', (nameReads_offset hr).1, rfl, (nameReads_offset hr).2⟩
    rw [findEntry] at hr
    split at hr
    · exact hhead hr
    · rcases mem_append.1 hr with hr | hr
      · exact hhead hr
      · obtain ⟨m, e, hm, he, hoff⟩ := ih hr
        exact ⟨m + 1, e, by omega, he, hoff⟩

/-- An entry called `PATH` is the bare word or has a value. -/
theorem text_of_entryName (h : entryName e = ascii "PATH") :
    e.text = ascii "PATH" ∨ ∃ v, e.text = ascii "PATH=" ++ v := by
  have hsplit : entryName e ++ e.text.dropWhile (· != 61) = e.text :=
    takeWhile_append_dropWhile
  have hstop := head?_dropWhile_not (· != 61) e.text
  rw [h] at hsplit
  cases hrest : e.text.dropWhile (· != 61) with
  | nil =>
    rw [hrest, append_nil] at hsplit
    exact .inl hsplit.symm
  | cons c v =>
    rw [hrest] at hsplit hstop
    have hc : c = 61 := by simpa using hstop
    refine .inr ⟨v, hsplit.symm.trans ?_⟩
    rw [hc]
    rfl

variable {v : Bytes}

theorem pathValue_eq_some : pathValue e = some v ↔ e.text = ascii "PATH=" ++ v := by
  rw [pathValue, ite_none_right_eq_some, some.injEq]
  constructor
  · rintro ⟨htake, rfl⟩
    rw [← htake, take_append_drop]
  · intro h
    rw [h]
    exact ⟨rfl, rfl⟩

theorem entryName_of_pathValue (h : pathValue e = some v) : entryName e = ascii "PATH" := by
  rw [entryName, pathValue_eq_some.1 h]
  rfl

theorem from_of_pathValue (h : pathValue e = some v) : e.from 5 = v := by
  rw [Entry.from, pathValue_eq_some.1 h, if_pos]
  · rfl
  · rw [length_append]
    exact Nat.le_add_right 5 v.length

/-- Where the first entry called `PATH` has a value, it is the one the child sees. -/
theorem childPath_eq (h : Valued envp) :
    childPath envp =
      ((envp.find? fun e => entryName e == ascii "PATH").map (·.from 5)).getD defaultPath := by
  induction envp with
  | nil => rfl
  | cons e es ih =>
    rw [childPath, findSome?_cons]
    rw [Valued, find?_cons] at h
    rw [find?_cons]
    by_cases he : entryName e = ascii "PATH"
    · rw [beq_iff_eq.2 he] at h ⊢
      obtain ⟨v, hv⟩ := (text_of_entryName he).resolve_left (h e rfl)
      have hvalue : pathValue e = some v := pathValue_eq_some.2 hv
      rw [hvalue]
      exact (from_of_pathValue hvalue).symm
    · rw [beq_eq_false_iff_ne.2 he] at h ⊢
      cases hvalue : pathValue e with
      | some => exact absurd (entryName_of_pathValue hvalue) he
      | none => exact ih h

/-! ### The answer -/

section Resolve

variable {fs : Filesystem} {cwd name : Bytes} {envp : List Entry}

/-- What the search answers and what it reads, by the entry it finds. -/
theorem resolve_eq (hname : 47 ∉ name) :
    resolve fs cwd name envp =
      match (findEntry (ascii "PATH") 0 envp).1 with
      | none =>
        ⟨(search fs cwd name [] defaultPath 0).1.getD name, (findEntry (ascii "PATH") 0 envp).2⟩
      | some (i, e) =>
        ⟨(search fs cwd name [] (e.from 5) 0).1.getD name,
          (findEntry (ascii "PATH") 0 envp).2 ++
            (range (search fs cwd name [] (e.from 5) 0).2).map fun j => ⟨i, 5 + j⟩⟩ := by
  rw [resolve, if_neg hname]
  rcases findEntry (ascii "PATH") 0 envp with ⟨_ | ⟨i, e⟩, reads⟩ <;> rfl

theorem resolve_prog (hname : 47 ∉ name) (h : Valued envp) :
    (resolve fs cwd name envp).prog = (search fs cwd name [] (childPath envp) 0).1.getD name := by
  rw [resolve_eq hname, childPath_eq h, ← findEntry_fst _ 0]
  rcases (findEntry (ascii "PATH") 0 envp).1 with _ | ⟨i, e⟩ <;> rfl

/-- The search stays inside the entries just when the entry it finds has a value. -/
theorem resolve_inside (hname : 47 ∉ name) :
    (∀ r ∈ (resolve fs cwd name envp).reads, r.Inside envp) ↔ Valued envp := by
  have hnames : ∀ r ∈ (findEntry (ascii "PATH") 0 envp).2, r.Inside envp := by
    intro r hr
    obtain ⟨m, e, hm, he, hoff⟩ := findEntry_reads hr
    rw [Nat.zero_add] at hm
    exact ⟨e, hm ▸ he, hoff⟩
  rw [resolve_eq hname, Valued, ← findEntry_fst _ 0]
  cases hfind : (findEntry (ascii "PATH") 0 envp).1 with
  | none =>
    exact iff_of_true hnames nofun
  | some found =>
    obtain ⟨i, e⟩ := found
    obtain ⟨m, hm, he⟩ := findEntry_index hfind
    rw [Nat.zero_add] at hm
    subst hm
    have hsearch := search_snd fs cwd name [] (e.from 5) 0
    constructor
    · -- The first byte of the value is read in any case, and of a bare `PATH` it is not inside.
      intro hin e' he' hbare
      cases some.inj he'
      have hfirst : (⟨i, 5 + 0⟩ : Read).Inside envp :=
        hin _ (mem_append_right _ (mem_map.2 ⟨0, mem_range.2 hsearch.1, rfl⟩))
      obtain ⟨e'', he'', hoff⟩ := hfirst
      rw [he] at he''
      cases some.inj he''
      rw [hbare] at hoff
      exact absurd hoff (by decide : ¬ 5 ≤ (ascii "PATH").length)
    · intro hvalue r hr
      rcases mem_append.1 hr with hr | hr
      · exact hnames r hr
      · obtain ⟨j, hj, rfl⟩ := mem_map.1 hr
        have hnamed : entryName e = ascii "PATH" := by
          have hfst := findEntry_fst (ascii "PATH") 0 envp
          rw [hfind] at hfst
          exact beq_iff_eq.1 (find?_some (p := fun e => entryName e == ascii "PATH") hfst.symm)
        obtain ⟨v, hv⟩ := (text_of_entryName hnamed).resolve_left (hvalue e rfl)
        have hfrom : e.from 5 = v := from_of_pathValue (pathValue_eq_some.2 hv)
        have hlen : e.text.length = 5 + v.length := by
          rw [hv, length_append]
          rfl
        refine ⟨e, he, ?_⟩
        have hj' := mem_range.1 hj
        rw [hfrom] at hsearch hj'
        show 5 + j ≤ e.text.length
        omega

/-- The answer is the name in a directory of the path, or the name itself where no directory has
it. -/
theorem resolve_cases (hname : 47 ∉ name) (h : Valued envp) :
    (∃ dir ∈ pathDirs envp, fs.xOk cwd (candidate name dir) = true ∧
      (resolve fs cwd name envp).prog = candidate name dir) ∨
    ((∀ dir ∈ pathDirs envp, fs.xOk cwd (candidate name dir) = false) ∧
      (resolve fs cwd name envp).prog = name) := by
  rw [resolve_prog hname h]
  cases hsearch : (search fs cwd name [] (childPath envp) 0).1 with
  | some =>
    obtain ⟨dir, hdir, hok, rfl⟩ := search_eq_some hsearch
    exact .inl ⟨dir, hdir, hok, rfl⟩
  | none => exact .inr ⟨fun dir hdir => search_eq_none hsearch hdir, rfl⟩

/-- **The interpreter of the bytecode.** What is not on the path is not taken from anywhere else: a
bare name does not begin with a slash. -/
theorem resolveInterpreter_found {p : Bytes} {environ : List Entry} (hname : 47 ∉ name)
    (h : ∀ e, (sanitizedEnvp environ).find? (fun e => entryName e == ascii "PATH") = some e →
      e.text ≠ ascii "PATH")
    (hp : resolveInterpreter fs cwd name environ = some p) :
    p.head? = some 47 ∧ fs.xOk cwd p = true ∧
      ∃ dir ∈ pathDirs (sanitizedEnvp environ), p = candidate name dir := by
  simp only [resolveInterpreter, ite_none_left_eq_some, ite_none_right_eq_some, not_not] at hp
  obtain ⟨hhead, hok, ⟨⟩⟩ := hp
  refine ⟨hhead, hok, ?_⟩
  rcases resolve_cases hname h with ⟨dir, hdir, -, hprog⟩ | ⟨-, hprog⟩
  · exact ⟨dir, hdir, hprog⟩
  · rw [hprog] at hhead
    exact absurd (mem_of_mem_head? hhead) hname

/-- With no `PATH` in the environment the default path is searched. -/
theorem resolveInterpreter_found_default :
    let fs : Bytes → Option File :=
      fun p => if p = ascii "/usr/bin/cyrius" then some ⟨1, true, true, false⟩ else none
    resolveInterpreter fs [] (ascii "cyrius") [] = some (ascii "/usr/bin/cyrius") ∧
      ∃ dir ∈ pathDirs (sanitizedEnvp []), ascii "/usr/bin/cyrius" =
        candidate (ascii "cyrius") dir := by
  intro fs
  have hp : resolveInterpreter fs [] (ascii "cyrius") [] =
      some (ascii "/usr/bin/cyrius") := by decide
  exact ⟨hp, (resolveInterpreter_found (by decide) (fun e he => by cases he) hp).2.2⟩

end Resolve

/-! ### A child that runs nothing -/

section Failed

variable {w : World} {input : Bytes} {timeout deadline : Int64}

theorem Drain.check_done {now : Int64} (h : s.outDone = true ∧ s.errDone = true) :
    (s.check deadline now).outDone = true ∧ (s.check deadline now).errDone = true := by
  unfold Drain.check
  split_ifs
  · exact ⟨rfl, rfl⟩
  · exact h
  · exact h

/-- A turn that finds both streams at their end is the last. -/
theorem Drain.turn_done {t : Turn} (hout : t.stdout = some [])
    (herr : t.stderr = some []) : (s.turn input deadline t).done = true := by
  rw [turn_eq, Drain.done, idle_outDone, idle_errDone, Bool.and_eq_true]
  exact check_done ⟨exchange_outDone_iff.2 (.inr hout), exchange_errDone_iff.2 (.inr herr)⟩

theorem resultOf_status {reason : Int} (h : w.report = some reason) :
    (resultOf w s).status = spawnFailed := by
  rw [resultOf, h]

theorem finish_returned (hends : w.ends ≠ none) :
    ∃ calls, finish w s = .returned (resultOf w s) calls := by
  unfold finish
  split
  · exact ⟨_, rfl⟩
  · cases he : w.ends with
    | none => exact absurd he hends
    | some => exact ⟨_, rfl⟩

/-- A spawn that could not be set up returns a failure. -/
theorem captureInput_setup {k : Nat} (hsetup : w.setupFails = some k) :
    ∃ fuel r calls, captureInput w input timeout fuel = some (.returned r calls) ∧
      r.status = spawnFailed := by
  have hrun : captureInput w input timeout 0 = some (setupFailure k) := by
    rw [captureInput, hsetup]
  exact ⟨0, _, _, hrun, rfl⟩

/-- So does one whose child reports and goes. -/
theorem captureInput_failed {n : Nat} {reason : Int} (hreport : w.report = some reason)
    (hout : (w.turn n).stdout = some []) (herr : (w.turn n).stderr = some [])
    (hends : w.ends ≠ none) :
    ∃ fuel r calls, captureInput w input timeout fuel = some (.returned r calls) ∧
      r.status = spawnFailed := by
  cases hsetup : w.setupFails with
  | some => exact captureInput_setup hsetup
  | none =>
    let L := pump input (deadlineOf w.start timeout)
    have hstop : L.stop (L.after w.turn (Drain.start w input timeout) (n + 1)) = true :=
      Drain.turn_done hout herr
    obtain ⟨fuel, s, hrun⟩ := L.exists_run hstop
    obtain ⟨calls, hfinish⟩ := finish_returned hends
    refine ⟨fuel, resultOf w s, calls, ?_, resultOf_status hreport⟩
    rw [captureInput, hsetup]
    exact (congrArg (Option.map (finish w)) hrun).trans (congrArg some hfinish)

end Failed

/-! ### The file that is executed -/

section Spawn

variable {h : Host} {name : Bytes} {envp : List Entry} {workDir : Option Bytes}

theorem file_execve {fs : Filesystem} {cwd prog : Bytes} {f : File} :
    (execve fs cwd prog).file = some f ↔ fs.open cwd prog = some f ∧ f.runs = true := by
  unfold execve
  cases fs.open cwd prog with
  | none => exact iff_of_false nofun nofun
  | some g =>
    by_cases hg : g.runs = true
    · simp only [hg, if_true, Exec.file, some.injEq]
      exact ⟨fun heq => ⟨heq, heq ▸ hg⟩, fun h => h.1⟩
    · simp only [hg, Exec.file, some.injEq]
      exact iff_of_false nofun fun h => hg (h.1 ▸ h.2)

/-- What is executed is what the answer of the search leads to from the child's directory. -/
theorem executed_eq_some {f : File} :
    h.executed name envp workDir = some f ↔
      (h.piped = true ∧ h.fork = true) ∧ chdirOk h.fs h.cwd workDir = true ∧
        h.fs.open (childDir h.cwd workDir) (resolve h.fs h.cwd name envp).prog = some f ∧
        f.runs = true := by
  rw [Host.executed, ite_none_right_eq_some, Bool.and_eq_true, Host.exec, child,
    apply_ite Exec.file, ← file_execve]
  exact and_congr_right fun _ => ite_none_right_eq_some

theorem setupFails_world (hsetup : (h.world name envp workDir).setupFails = none) :
    h.piped = true ∧ h.fork = true := by
  unfold World.setupFails at hsetup
  split at hsetup
  next => cases hsetup
  next hfind =>
    split at hsetup
    next hrest =>
      obtain ⟨hcloexec, hfork⟩ := Bool.and_eq_true_iff.1 hrest
      refine ⟨Bool.and_eq_true_iff.2 ⟨all_eq_true.2 fun i hi => ?_, hcloexec⟩, hfork⟩
      have hpipe := find?_eq_none.1 hfind i hi
      rw [Bool.not_eq_true, Bool.not_eq_false'] at hpipe
      exact hpipe
    next => cases hsetup

/-- A spawn that executes nothing returns a failure. -/
theorem spawn_failed (hnone : h.executed name envp workDir = none) (input : Bytes)
    (timeout : Int64) :
    ∃ fuel r calls, h.spawn name envp workDir input timeout fuel = some (.returned r calls) ∧
      r.status = spawnFailed := by
  cases hsetup : (h.world name envp workDir).setupFails with
  | some => exact captureInput_setup hsetup
  | none =>
    obtain ⟨hpiped, hfork⟩ := setupFails_world hsetup
    rw [Host.executed, hpiped, hfork] at hnone
    cases hexec : h.exec name envp workDir with
    | ran => rw [hexec] at hnone; cases hnone
    | failed reason =>
      obtain ⟨n, hout, herr⟩ := h.exits reason
      have hends := h.ends reason
      have hreport : (h.world name envp workDir).report = some reason := by
        rw [Host.world, hexec]
        rfl
      rw [← hexec] at hout herr hends
      exact captureInput_failed hreport hout herr hends

/-- **The file a spawn executes.** For every name without a slash, every environment block, every
working directory and every host: a spawn does what it is to do exactly when the `PATH` it finds has
a value, and nothing of that name is planted where the child looks when the path leads nowhere. -/
theorem searchesPath_iff (hname : 47 ∉ name) :
    SearchesPath h name envp workDir ↔
      h.PathHasValue envp ∧ h.NothingPlanted name envp workDir := by
  constructor
  · intro hs
    have hvalue : h.PathHasValue envp := by
      intro hpiped
      have hin := hs.inside
      rw [Host.reads, if_pos hpiped] at hin
      exact (resolve_inside hname).1 hin
    refine ⟨hvalue, fun hpiped hfork hchdir hnone f hopen hruns => ?_⟩
    -- Nothing on the path, so the name goes to the child as it is.
    have hprog : (resolve h.fs h.cwd name envp).prog = name := by
      rcases resolve_cases hname (hvalue hpiped) with
        ⟨dir, hdir, hok, -⟩ | ⟨-, hprog⟩
      · rw [hnone dir hdir] at hok
        cases hok
      · exact hprog
    rw [← hprog] at hopen
    exact (hs.found f (executed_eq_some.2 ⟨⟨hpiped, hfork⟩, hchdir, hopen, hruns⟩)).2
  · rintro ⟨hvalue, hplanted⟩
    have hfound : ∀ f, h.executed name envp workDir = some f → f.runs = true ∧
        ∃ dir ∈ pathDirs envp,
          h.fs.open (childDir h.cwd workDir) (candidate name dir) = some f := by
      intro f hf
      obtain ⟨⟨hpiped, hfork⟩, hchdir, hopen, hruns⟩ := executed_eq_some.1 hf
      refine ⟨hruns, ?_⟩
      rcases resolve_cases hname (hvalue hpiped) with
        ⟨dir, hdir, -, hprog⟩ | ⟨hnone, hprog⟩
      · exact ⟨dir, hdir, hprog ▸ hopen⟩
      · exact hplanted hpiped hfork hchdir hnone f (hprog ▸ hopen) hruns
    refine ⟨hfound, fun hno => spawn_failed ?_, fun r hr => ?_⟩
    · cases hf : h.executed name envp workDir with
      | none => rfl
      | some f =>
        obtain ⟨hruns, dir, hdir, hopen⟩ := hfound f hf
        rw [hno dir hdir f hopen] at hruns
        cases hruns
    · unfold Host.reads at hr
      split at hr
      next hpiped => exact (resolve_inside hname).2 (hvalue hpiped) r hr
      next => cases hr

end Spawn

/-- A host whose only file is a program at `path`, with the parent in `/srv`. -/
def oneProgram (path : Bytes) : Host where
  fs := fun p => if p = path then some { id := 1, access := true, runs := true, directory := false }
    else none
  cwd := ascii "/srv"
  pipe := fun _ => true
  cloexec := true
  fork := true
  goesOn := fun _ =>
    { pipe := fun _ => true
      cloexec := true
      fork := true
      start := 0
      start_nonneg := zero_start_nonneg
      turn := fun _ => { write := 0, stdout := some [], stderr := some [], now := 1 }
      report := none
      ends := some 1
      status := 0
      killStatus := 0 }
  exits := fun _ => ⟨0, rfl, rfl⟩
  ends := fun _ => some_ne_none 1

/-- An installed program is looked up on the default path. -/
theorem searchesPath_installed :
    47 ∉ ascii "tool" ∧ SearchesPath (oneProgram (ascii "/bin/tool")) (ascii "tool") [] none := by
  have hname : 47 ∉ ascii "tool" := by decide
  refine ⟨hname, (searchesPath_iff hname).2 ⟨fun _ e he => ?_, fun _ _ _ hnone => ?_⟩⟩
  · cases he
  · exact absurd (hnone (ascii "/bin") (by decide)) (by decide)

/-- A program in the parent's directory and on no path is executed; and a block whose entry is the
bare word `PATH` is read past its end. -/
theorem not_searchesPath_planted :
    (oneProgram (ascii "/srv/tool")).executed (ascii "tool") [] none =
        some { id := 1, access := true, runs := true, directory := false } ∧
      ¬ SearchesPath (oneProgram (ascii "/srv/tool")) (ascii "tool") [] none ∧
      ⟨0, 5⟩ ∈ (oneProgram (ascii "/bin/tool")).reads (ascii "tool") [⟨ascii "PATH", ascii "x"⟩] ∧
      ¬ SearchesPath (oneProgram (ascii "/bin/tool")) (ascii "tool") [⟨ascii "PATH", ascii "x"⟩]
        none := by
  have hexecuted : (oneProgram (ascii "/srv/tool")).executed (ascii "tool") [] none =
      some { id := 1, access := true, runs := true, directory := false } := by decide
  have hread : (⟨0, 5⟩ : Read) ∈
      (oneProgram (ascii "/bin/tool")).reads (ascii "tool") [⟨ascii "PATH", ascii "x"⟩] := by decide
  refine ⟨hexecuted, fun hs => ?_, hread, fun hs => ?_⟩
  · obtain ⟨-, dir, hdir, hopen⟩ := hs.found _ hexecuted
    have hdirs : pathDirs [] = [ascii "/bin", ascii "/usr/bin"] := by decide
    rw [hdirs, mem_cons, mem_singleton] at hdir
    rcases hdir with rfl | rfl <;> exact absurd hopen (by decide)
  · obtain ⟨e, he, hoff⟩ := hs.inside _ hread
    cases he
    exact absurd hoff (by decide)

end Agnosai.Spawn
