import ScreenAtlas.FileSystem.Resolve
import ScreenAtlas.Proofs.Path.Below
import ScreenAtlas.Proofs.Utf8
/-!
# Resolving a path further

Resolving a path that goes on from another one resumes where the other one leads, with the links
that are left. For a name below a path this is a single step from the directory that the path leads
to, however the path is spelled.

## Main definitions

* `Path.Resolvable` — the paths that are looked at at all.
* `FileChanged` — another file system, in which one file has other content or is gone.

## Main statements

* `resolveSteps_append` — steps after steps.
* `stat_eq_ok_iff` — what a path leads to.
* `exists_stat_join` — a name below a directory's path is one step from that directory.
* `of_stat_join`, `stat_join_of_file` — what the entries of a directory lead to.
* `readText_eq_ok_iff` — the paths that can be read.
* `readText_of_fileChanged` — a change of one file is seen only by paths that lead to that file.
-/
namespace ScreenAtlas

/-- The paths that are looked at: not empty, not too long, and without a zero byte. -/
structure Path.Resolvable (p : Path) : Prop where
  bytes_ne_nil : p.bytes ≠ []
  length_le : p.bytes.length ≤ FileSystem.maxPathLength
  zero_notMem : 0 ∉ p.bytes

namespace FileSystem

variable {fs : FileSystem}

/-! ## Steps -/

@[simp] theorem resolveSteps_nil (budget : Nat) (l : Location) :
    fs.resolveSteps budget l [] = .ok (l, budget) := by
  cases budget <;> rfl

/-- One step, with the remaining steps after it. -/
theorem resolveSteps_cons (budget : Nat) (l : Location) (step : PathStep) (steps : List PathStep) :
    fs.resolveSteps budget l (step :: steps) =
      if fs.isDirectory l then
        match step with
        | .stay => fs.resolveSteps budget l steps
        | .up => fs.resolveSteps budget l.tail steps
        | .into name =>
          if maxNameLength < name.bytes.length then .error .nameTooLong
          else match fs.node? (name :: l) with
            | none => .error .notFound
            | some (.link target) =>
              match budget with
              | 0 => .error .tooManyLinks
              | budget + 1 => fs.resolveSteps budget (start target l) (target.steps ++ steps)
            | some _ => fs.resolveSteps budget (name :: l) steps
      else .error (fs.faultAt l) := by
  cases budget <;> rfl

/-- **Steps after steps** resume at the location that the first ones lead to. -/
theorem resolveSteps_append (budget : Nat) (l : Location) (steps more : List PathStep) :
    fs.resolveSteps budget l (steps ++ more) =
      (fs.resolveSteps budget l steps).bind fun r => fs.resolveSteps r.2 r.1 more := by
  induction budget using Nat.strongRecOn generalizing l steps with
  | ind budget ihBudget =>
      induction steps generalizing l with
      | nil => simp [Except.bind]
      | cons step steps ih =>
          rw [List.cons_append, resolveSteps_cons, resolveSteps_cons]
          split
          · split
            · exact ih l
            · exact ih l.tail
            · split
              · rfl
              · split
                · rfl
                · -- At a link, its target's steps come first and one link fewer is left.
                  cases budget with
                  | zero => rfl
                  | succ budget =>
                      rw [← List.append_assoc]
                      exact ihBudget budget (Nat.lt_succ_self budget) _ _
                · exact ih _
          · rfl

theorem resolveSteps_stay {budget : Nat} {l : Location} {r : Location × Nat}
    (h : fs.resolveSteps budget l [.stay] = .ok r) : r = (l, budget) := by
  rw [resolveSteps_cons] at h
  split at h
  · simpa [eq_comm] using h
  · exact absurd h (by simp)

/-! ## Paths -/

theorem resolve_of_resolvable {p : Path} (hp : p.Resolvable) :
    fs.resolve p = (fs.resolveSteps maxLinks (start p fs.workingDir) p.steps).map (·.1) := by
  rw [resolve, if_neg hp.zero_notMem, if_neg (Nat.not_lt.mpr hp.length_le),
    if_neg hp.bytes_ne_nil]

theorem resolvable_of_resolve {p : Path} {l : Location} (h : fs.resolve p = .ok l) :
    p.Resolvable := by
  unfold resolve at h
  split at h
  · exact absurd h (by simp)
  · next hzero =>
    split at h
    · exact absurd h (by simp)
    · next hlength =>
      split at h
      · exact absurd h (by simp)
      · next hnil => exact ⟨hnil, Nat.not_lt.mp hlength, hzero⟩

/-- **What a path leads to.** -/
theorem stat_eq_ok_iff {p : Path} {l : Location} {n : Node} :
    fs.stat p = .ok (l, n) ↔
      p.Resolvable ∧ fs.node? l = some n ∧
        ∃ left, fs.resolveSteps maxLinks (start p fs.workingDir) p.steps = .ok (l, left) := by
  have hstat : fs.stat p = .ok (l, n) ↔ fs.resolve p = .ok l ∧ fs.node? l = some n := by
    simp only [stat, bind, Except.bind]
    cases fs.resolve p with
    | error fault => simp
    | ok l' => cases hnode : fs.node? l' <;> grind
  rw [hstat]
  constructor
  · rintro ⟨hresolve, hnode⟩
    have hp := resolvable_of_resolve hresolve
    rw [resolve_of_resolvable hp] at hresolve
    cases hsteps : fs.resolveSteps maxLinks (start p fs.workingDir) p.steps with
    | error fault => simp [hsteps, Except.map] at hresolve
    | ok r =>
        obtain rfl : r.1 = l := by simpa [hsteps, Except.map] using hresolve
        exact ⟨hp, hnode, r.2, rfl⟩
  · rintro ⟨hp, hnode, left, hsteps⟩
    rw [resolve_of_resolvable hp, hsteps]
    exact ⟨rfl, hnode⟩

/-! ## A name below a path -/

/-- The steps of a path but for the one of a slash at its end. -/
theorem steps_eq_trunk (p : Path) :
    p.steps = (p.trunk.splitOn Path.slash).map PathStep.ofSegment ∨
      p.steps = (p.trunk.splitOn Path.slash).map PathStep.ofSegment ++ [.stay] := by
  obtain h | h := p.bytes_eq_trunk
  · exact .inl (by rw [← h, Path.steps])
  · refine .inr ?_
    rw [Path.steps, h, List.splitOn_append_cons_self, List.map_append]
    rfl

theorem ofSegment_name (n : Name) : PathStep.ofSegment n.bytes = .into n := by
  have hname : Name.ofBytes? n.bytes = some n := dif_pos n.isName
  rw [PathStep.ofSegment, if_neg n.bytes_ne_up, hname]

theorem steps_join_name {p : Path} (hp : p.bytes ≠ []) (n : Name) :
    (p.join ⟨n.bytes⟩).steps =
      (p.trunk.splitOn Path.slash).map PathStep.ofSegment ++ [.into n] := by
  rw [Path.steps, Path.bytes_join_name hp, List.splitOn_append_cons_self,
    List.splitOn_eq_singleton n.slash_notMem, List.map_append, List.map_singleton, ofSegment_name]

theorem start_join_name {p : Path} (hp : p.bytes ≠ []) (n : Name) (here : Location) :
    start (p.join ⟨n.bytes⟩) here = start p here := by
  have hhead : (p.join ⟨n.bytes⟩).head = p.head := Path.head_below hp [n]
  rw [start, start, Path.isAbsolute, Path.isAbsolute, hhead]

/-- **A name below a directory's path** is one step from the directory that the path leads to, with
the links that the path has left. -/
theorem exists_stat_join {p : Path} {l : Location} (h : fs.stat p = .ok (l, .directory)) :
    ∃ left, ∀ n : Name,
      fs.resolveSteps maxLinks (start (p.join ⟨n.bytes⟩) fs.workingDir) (p.join ⟨n.bytes⟩).steps =
        fs.resolveSteps left l [.into n] := by
  obtain ⟨hp, _, left, hsteps⟩ := stat_eq_ok_iff.mp h
  have htrunk : fs.resolveSteps maxLinks (start p fs.workingDir)
      ((p.trunk.splitOn Path.slash).map PathStep.ofSegment) = .ok (l, left) := by
    obtain htrunk | htrunk := steps_eq_trunk p
    · rwa [← htrunk]
    · rw [htrunk, resolveSteps_append] at hsteps
      cases hfront : fs.resolveSteps maxLinks (start p fs.workingDir)
          ((p.trunk.splitOn Path.slash).map PathStep.ofSegment) with
      | error fault => simp [hfront, Except.bind] at hsteps
      | ok r =>
          rw [hfront] at hsteps
          rw [resolveSteps_stay hsteps]
  refine ⟨left, fun n => ?_⟩
  rw [start_join_name hp.bytes_ne_nil, steps_join_name hp.bytes_ne_nil, resolveSteps_append, htrunk]
  rfl

/-- One step into a directory finds an entry, and stays at it unless it is a link. -/
theorem of_resolveSteps_into {budget : Nat} {l : Location} {n : Name} {r : Location × Nat}
    (h : fs.resolveSteps budget l [.into n] = .ok r) :
    (∃ m, fs.node? (n :: l) = some m) ∧ (fs.isLink (n :: l) = false → r.1 = n :: l) := by
  rw [resolveSteps_cons] at h
  dsimp only at h
  split at h
  · split at h
    · exact absurd h (by simp)
    · split at h
      · exact absurd h (by simp)
      · next target hnode => exact ⟨⟨_, hnode⟩, fun hlink => by simp [isLink, hnode] at hlink⟩
      · next m _ hnode =>
        rw [resolveSteps_nil, Except.ok.injEq] at h
        exact ⟨⟨m, hnode⟩, fun _ => by rw [← h]⟩
  · exact absurd h (by simp)

/-- What a name below a directory's path leads to starts from an entry of the directory, and is that
entry unless it is a link. -/
theorem of_stat_join {p : Path} {l t : Location} {n : Name} {m : Node}
    (hp : fs.stat p = .ok (l, .directory)) (h : fs.stat (p.join ⟨n.bytes⟩) = .ok (t, m)) :
    (∃ m', fs.node? (n :: l) = some m') ∧
      (fs.isLink (n :: l) = false → t = n :: l ∧ fs.node? (n :: l) = some m) := by
  obtain ⟨left, hjoin⟩ := exists_stat_join hp
  obtain ⟨_, hnode, left', hsteps⟩ := stat_eq_ok_iff.mp h
  rw [hjoin n] at hsteps
  obtain ⟨hentry, hstay⟩ := of_resolveSteps_into hsteps
  refine ⟨hentry, fun hlink => ?_⟩
  obtain rfl := hstay hlink
  exact ⟨rfl, hnode⟩

/-- A regular file in a directory is what its name leads to, as far as names and paths of that
length are looked up. -/
theorem stat_join_of_file {p : Path} {l : Location} {n : Name} {bytes : List UInt8}
    (hp : fs.stat p = .ok (l, .directory)) (hfile : fs.node? (n :: l) = some (.file bytes))
    (hname : n.bytes.length ≤ maxNameLength) (hpath : (p.join ⟨n.bytes⟩).Resolvable) :
    fs.stat (p.join ⟨n.bytes⟩) = .ok (n :: l, .file bytes) := by
  obtain ⟨left, hjoin⟩ := exists_stat_join hp
  have hl : fs.isDirectory l := by simp [isDirectory, (stat_eq_ok_iff.mp hp).2.1]
  refine stat_eq_ok_iff.mpr ⟨hpath, hfile, left, ?_⟩
  rw [hjoin n, resolveSteps_cons, if_pos hl]
  simp [hfile, Nat.not_lt.mpr hname]

/-! ## Reading -/

/-- **The paths that can be read** lead to a regular file whose content is well-formed. -/
theorem readText_eq_ok_iff {p : Path} {text : List Char} :
    fs.readText p = .ok text ↔ ∃ l, fs.stat p = .ok (l, .file (Utf8.encode text)) := by
  simp only [readText, bind, Except.bind]
  cases hstat : fs.stat p with
  | error fault => simp
  | ok r =>
      obtain ⟨l, node⟩ := r
      cases node with
      | file bytes =>
          cases hdecode : Utf8.decode? bytes with
          | none =>
              have hbytes : bytes ≠ Utf8.encode text := fun h => by
                simp [Utf8.decode?_eq_some_iff.mpr h] at hdecode
              simp [hdecode, hbytes]
          | some s =>
              obtain rfl := Utf8.decode?_eq_some_iff.mp hdecode
              have htext : Utf8.encode s = Utf8.encode text ↔ s = text := by
                rw [← Utf8.decode?_eq_some_iff, hdecode, Option.some.injEq]
              simp [hdecode, htext]
      | link target => simp
      | directory => simp

/-! ## A change of one file -/

theorem node?_insert (fs : FileSystem) {l : Location} (hl : l ≠ []) (n : Node) (l' : Location) :
    (fs.insert l n).node? l' = if l' = l then some n else fs.node? l' := by
  cases l' with
  | nil => rw [if_neg (Ne.symm hl)]; rfl
  | cons name parent =>
      simp only [node?, insert, List.find?_cons, List.find?_filter]
      by_cases h : name :: parent = l
      · simp [h]
      · have h' : ¬l = name :: parent := Ne.symm h
        simp only [h, h', decide_false, if_false]
        congr 1
        congr 1
        funext b
        by_cases hb : b.1 = name :: parent <;> simp [hb, h]

/-- Another file system, in which one file has other content or is gone. -/
structure FileChanged (fs fs' : FileSystem) (l : Location) : Prop where
  workingDir : fs'.workingDir = fs.workingDir
  elsewhere : ∀ l', l' ≠ l → fs'.node? l' = fs.node? l'
  before : ∃ old, fs.node? l = some (.file old)
  after : fs'.node? l = none ∨ ∃ new, fs'.node? l = some (.file new)

/-- New content of a file is a change of that file alone. -/
theorem fileChanged_insert {l : Location} {old : List UInt8} (h : fs.node? l = some (.file old))
    (new : List UInt8) : FileChanged fs (fs.insert l (.file new)) l := by
  have hl : l ≠ [] := by rintro rfl; simp [node?] at h
  refine ⟨rfl, fun l' hl' => ?_, ⟨old, h⟩, .inr ⟨new, ?_⟩⟩
  · rw [node?_insert fs hl, if_neg hl']
  · rw [node?_insert fs hl, if_pos rfl]

/-- No steps lead on from a regular file. -/
theorem resolveSteps_of_file {budget : Nat} {l : Location} {steps : List PathStep}
    {r : Location × Nat} {bytes : List UInt8} (hfile : fs.node? l = some (.file bytes))
    (h : fs.resolveSteps budget l steps = .ok r) : steps = [] ∧ r = (l, budget) := by
  cases steps with
  | nil => simpa [eq_comm] using h
  | cons step steps => simp [resolveSteps_cons, isDirectory, hfile] at h

/-- Steps lead to the same place in a file system that is alike but for one location, where no
directory and no link was. If they lead to that very location, it has to be a file still. -/
theorem resolveSteps_of_elsewhere {fs' : FileSystem} {l : Location}
    (helse : ∀ l', l' ≠ l → fs'.node? l' = fs.node? l')
    (hl : ∀ n, fs.node? l = some n → ∃ bytes, n = .file bytes)
    {budget : Nat} {here t : Location} {steps : List PathStep} {left : Nat}
    (h : fs.resolveSteps budget here steps = .ok (t, left))
    (ht : t = l → ∃ bytes, fs'.node? l = some (.file bytes)) :
    fs'.resolveSteps budget here steps = .ok (t, left) := by
  induction budget using Nat.strongRecOn generalizing here steps with
  | ind budget ihBudget =>
      induction steps generalizing here with
      | nil => rwa [resolveSteps_nil] at h ⊢
      | cons step steps ih =>
          rw [resolveSteps_cons] at h ⊢
          split at h
          · next hdir =>
            -- The steps go on from a directory, so this is not the location that was changed.
            have hhere : here ≠ l := by
              rintro rfl
              obtain ⟨_, hfile⟩ := hl .directory (by simpa [isDirectory] using hdir)
              cases hfile
            rw [if_pos (by rwa [isDirectory, helse here hhere])]
            cases step with
            | stay => exact ih h
            | up => exact ih h
            | into name =>
                dsimp only at h ⊢
                split at h
                · cases h
                · next hlong =>
                  rw [if_neg hlong]
                  by_cases hnext : name :: here = l
                  · cases hnode : fs.node? (name :: here) with
                    | none => simp [hnode] at h
                    | some n =>
                        obtain ⟨bytes, rfl⟩ := hl n (hnext ▸ hnode)
                        simp only [hnode] at h
                        obtain ⟨rfl, hend⟩ := resolveSteps_of_file hnode h
                        cases hend
                        obtain ⟨bytes', hfile'⟩ := ht hnext
                        simp [hnext, hfile']
                  · rw [helse _ hnext]
                    split at h
                    · cases h
                    · cases budget with
                      | zero => cases h
                      | succ budget => exact ihBudget budget (Nat.lt_succ_self budget) h
                    · exact ih h
          · cases h

/-- **A change of one file** leaves the text of every other file as it is: a path that does not lead
to the changed file is read as before, or still cannot be read. -/
theorem readText_of_fileChanged {fs' : FileSystem} {l : Location} (h : FileChanged fs fs' l)
    {p : Path} (hp : ∀ n, fs.stat p ≠ .ok (l, n)) :
    (fs'.readText p).toOption = (fs.readText p).toOption := by
  obtain ⟨hdir, helse, ⟨old, hold⟩, hnew⟩ := h
  have hstat (t : Location) (n : Node) : fs'.stat p = .ok (t, n) ↔ fs.stat p = .ok (t, n) := by
    simp only [stat_eq_ok_iff, hdir]
    constructor
    · rintro ⟨hres, hnode, left, hsteps⟩
      have hsteps' := resolveSteps_of_elsewhere (fun l' hl' => (helse l' hl').symm)
        (fun n' hn' => by
          obtain hnone | ⟨new, hfile⟩ := hnew
          · cases hnone.symm.trans hn'
          · exact ⟨new, Option.some.inj (hn'.symm.trans hfile)⟩)
        hsteps fun _ => ⟨old, hold⟩
      have ht : t ≠ l := by
        rintro rfl
        exact hp _ (stat_eq_ok_iff.mpr ⟨hres, hold, left, hsteps'⟩)
      exact ⟨hres, (helse t ht) ▸ hnode, left, hsteps'⟩
    · rintro ⟨hres, hnode, left, hsteps⟩
      have ht : t ≠ l := by
        rintro rfl
        exact hp n (stat_eq_ok_iff.mpr ⟨hres, hnode, left, hsteps⟩)
      exact ⟨hres, (helse t ht).trans hnode, left, resolveSteps_of_elsewhere helse
        (fun n' hn' => ⟨old, Option.some.inj (hn'.symm.trans hold)⟩) hsteps fun hl => absurd hl ht⟩
  refine Option.ext fun text => ?_
  have htext (fs : FileSystem) : (fs.readText p).toOption = some text ↔
      fs.readText p = .ok text := by
    cases fs.readText p <;> simp [Except.toOption]
  rw [htext, htext, readText_eq_ok_iff, readText_eq_ok_iff]
  simp only [hstat]

end FileSystem

end ScreenAtlas
