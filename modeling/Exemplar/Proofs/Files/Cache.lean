import Exemplar.Project.RuleFile
import Mathlib.Data.List.Infix

/-!
# Periods of remembered files

The history of a cache falls into periods for each path: one begins with the first read since the path was last
forgotten, and ends where it is forgotten again. The source of files may change its mind at any time, but it is asked
once in each period, by the read that opens it, and every read of the period answers with what it said then.
-/

namespace Exemplar

open Exemplar.Path (steps)

namespace Cache

/-! ### Entries -/

section Entries

variable {cache : Cache} {path other : String} {answer : FileAnswer}

/-- The steps of the paths that have an entry. -/
def keys (cache : Cache) : List (List Step) :=
  cache.entries.map Prod.fst

theorem isSome_find?_iff : (cache.find? path).isSome = true ↔ steps path ∈ cache.keys := by
  rw [find?, keys, List.lookup_isSome_iff]
  simp

theorem find?_forget : (cache.forget path).find? other =
    if steps path = steps other then none else cache.find? other := by
  obtain ⟨entries⟩ := cache
  simp only [find?, forget]
  induction entries with
  | nil => simp
  | cons entry entries ih =>
    obtain ⟨key, answer⟩ := entry
    -- The entry is one that is forgotten, or else the one that is looked for, or neither.
    by_cases hkey : key = steps path
    · subst hkey
      rw [List.filter_cons_of_neg (by simp), ih, List.lookup_cons]
      by_cases hother : steps path = steps other
      · rw [if_pos hother, if_pos hother]
      · rw [if_neg hother, if_neg hother, beq_eq_false_iff_ne.mpr (Ne.symm hother)]
    · rw [List.filter_cons_of_pos (by simpa using hkey), List.lookup_cons, List.lookup_cons, ih]
      by_cases hother : steps other = key
      · have hne : steps path ≠ steps other := fun h => hkey (hother.symm.trans h.symm)
        rw [beq_iff_eq.mpr hother, if_neg hne, if_neg hne]
      · rw [beq_eq_false_iff_ne.mpr hother]

theorem find?_keep : (cache.keep path answer).find? other =
    if steps path = steps other then some answer else cache.find? other := by
  have hkeep : (cache.keep path answer).find? other =
      match steps other == steps path with
      | true => some answer
      | false => (cache.forget path).find? other := rfl
  rw [hkeep, find?_forget]
  by_cases hother : steps path = steps other
  · rw [if_pos hother, if_pos hother, beq_iff_eq.mpr hother.symm]
  · rw [if_neg hother, if_neg hother, beq_eq_false_iff_ne.mpr (Ne.symm hother)]

theorem keys_forget_subset : (cache.forget path).keys ⊆ cache.keys :=
  (List.filter_sublist.map Prod.fst).subset

theorem nodup_forget (h : cache.keys.Nodup) : (cache.forget path).keys.Nodup :=
  (List.filter_sublist.map Prod.fst).nodup h

theorem nodup_keep (h : cache.keys.Nodup) : (cache.keep path answer).keys.Nodup := by
  have hnew : steps path ∉ (cache.forget path).keys := by
    rw [← isSome_find?_iff, find?_forget, if_pos rfl]
    exact Bool.false_ne_true
  exact List.nodup_cons.mpr ⟨hnew, nodup_forget h⟩

end Entries

/-! ### Histories -/

/-- What is asked of a cache. -/
inductive Operation where
  | get (path : String)
  | read (path : String)
  | forget (path : String)
  | locate (path query : String) (target : Location.Target)

/-- What a cache answers. -/
inductive Response where
  | text (text? : Option String)
  | answer (answer : FileAnswer)
  | forgotten
  | line (answer : Except Text.Misplaced (Option Nat))

/-- A request to the source of files, with its answer. -/
structure Request where
  path : String
  answer : Except ReadFailure String

namespace Operation

variable {m : Type → Type} [Monad m]

def path : Operation → String
  | get path | read path | forget path | locate path _ _ => path

def isForget : Operation → Bool
  | forget _ => true
  | _ => false

def run (source : FileSource m) (cache : Cache) : Operation → m (Response × Cache)
  | get path => do
    let (text?, cache) ← cache.get source path
    return (.text text?, cache)
  | read path => do
    let (answer, cache) ← cache.read source path
    return (.answer answer, cache)
  | forget path => return (.forgotten, cache.forget path)
  | locate path query target => do
    let (answer, cache) ← RuleFile.locate source cache path query target
    return (.line answer, cache)

/-- What comes of the answer for the path. -/
def respond : Operation → FileAnswer → Response
  | get _, answer => .text answer.toOption
  | read _, answer => .answer answer
  | forget _, _ => .forgotten
  | locate _ query target, answer => .line <|
    match answer.toOption with
    | none => .ok none
    | some text => (Locator.ofText text query 0).locate target

/-- Reads the file at a path, or one with the same steps. -/
def Reads (operation : Operation) (path : String) : Prop :=
  operation.isForget = false ∧ steps operation.path = steps path

def Forgets (operation : Operation) (path : String) : Prop :=
  operation.isForget = true ∧ steps operation.path = steps path

end Operation

/-- An operation with what it asked the source for and what it answered. -/
structure Event where
  operation : Operation
  requests : List Request
  response : Response

/-- The file at a path was read since it was last forgotten. The latest event comes first. -/
inductive ReadSince (path : String) : List Event → Prop
  | now {event : Event} {earlier : List Event} (reads : event.operation.Reads path) :
      ReadSince path (event :: earlier)
  | before {event : Event} {earlier : List Event} (keeps : ¬ event.operation.Forgets path)
      (read : ReadSince path earlier) : ReadSince path (event :: earlier)

/-- The read that opened the period of a path. -/
inductive OpenedBy (path : String) (opening : Event) : List Event → Prop
  | now {earlier : List Event} (reads : opening.operation.Reads path) (first : ¬ ReadSince path earlier) :
      OpenedBy path opening (opening :: earlier)
  | before {event : Event} {earlier : List Event} (keeps : ¬ event.operation.Forgets path)
      (opened : OpenedBy path opening earlier) : OpenedBy path opening (event :: earlier)

/-- How an event follows from the earlier ones: the source is asked by the first read of a period, and only by that
one. All reads of the period make the same of what it said, and a fault names the path that it was asked for. -/
inductive Event.Follows (event : Event) (earlier : List Event) : Prop
  | forgets (forget : event.operation.isForget = true) (asked : event.requests = []) :
      Follows event earlier
  | opens (read : event.operation.isForget = false) (first : ¬ ReadSince event.operation.path earlier)
      (answer : Except ReadFailure String) (asked : event.requests = [⟨event.operation.path, answer⟩])
      (answered : event.response =
        event.operation.respond ((answer.mapError (.read event.operation.path)).mapError .remembered)) :
      Follows event earlier
  | repeats (read : event.operation.isForget = false) (asked : event.requests = [])
      (opening : Event) (opened : OpenedBy event.operation.path opening earlier)
      (answer : Except ReadFailure String) (first : opening.requests = [⟨opening.operation.path, answer⟩])
      (answered : event.response =
        event.operation.respond ((answer.mapError (.read opening.operation.path)).mapError .remembered)) :
      Follows event earlier

/-- A cache, the source of files in its current state, and what has happened, the latest event first. -/
structure Session (σ : Type) where
  cache : Cache := {}
  state : σ
  events : List Event := []

variable {σ : Type}

/-- A source that notes what it is asked for and what it answers. -/
def noted (source : FileSource (StateM σ)) : FileSource (StateM (σ × List Request)) :=
  fun path (state, requests) =>
    let (answer, state) := source path state
    (answer, state, requests ++ [⟨path, answer⟩])

namespace Session

def step (source : FileSource (StateM σ)) (session : Session σ) (operation : Operation) : Session σ :=
  let ((response, cache), state, requests) := operation.run (noted source) session.cache (session.state, [])
  ⟨cache, state, ⟨operation, requests, response⟩ :: session.events⟩

end Session

/-- Every read makes something of the same answer. -/
theorem Operation.run_of_not_isForget {m : Type → Type} [Monad m] [LawfulMonad m] (source : FileSource m)
    (cache : Cache) {operation : Operation} (h : operation.isForget = false) :
    operation.run source cache = (do
      let (answer, cache) ← cache.read source operation.path
      return (operation.respond answer, cache)) := by
  cases operation with
  | forget => cases h
  | read => rfl
  | get path => simp [run, Cache.get, respond, Operation.path]
  | locate path query target =>
    simp only [run, RuleFile.locate, Cache.get, bind_assoc, pure_bind]
    rfl

/-! ### Steps -/

namespace Session

variable {source : FileSource (StateM σ)} {session : Session σ} {operation : Operation} {path : String}

/-- What a step can do: forget, answer with what was kept, or ask. -/
theorem step_cases (source : FileSource (StateM σ)) (session : Session σ) (operation : Operation) :
    (operation.isForget = true ∧ session.step source operation =
      ⟨session.cache.forget operation.path, session.state,
        ⟨operation, [], .forgotten⟩ :: session.events⟩) ∨
    (operation.isForget = false ∧ ∃ kept, session.cache.find? operation.path = some kept ∧
      session.step source operation = ⟨session.cache, session.state,
        ⟨operation, [], operation.respond (kept.mapError .remembered)⟩ :: session.events⟩) ∨
    (operation.isForget = false ∧ session.cache.find? operation.path = none ∧ ∃ answer state,
      session.step source operation =
        ⟨session.cache.keep operation.path (answer.mapError (.read operation.path)), state,
          ⟨operation, [⟨operation.path, answer⟩],
            operation.respond ((answer.mapError (.read operation.path)).mapError .remembered)⟩ ::
              session.events⟩) := by
  cases h : operation.isForget with
  | true =>
    cases operation with
    | forget => exact .inl ⟨rfl, rfl⟩
    | get | read | locate => cases h
  | false =>
    right
    have hrun := Operation.run_of_not_isForget (noted source) session.cache h
    cases hfound : session.cache.find? operation.path with
    | some kept =>
      refine .inl ⟨rfl, kept, rfl, ?_⟩
      simp only [step, hrun, Cache.read, hfound]
      rfl
    | none =>
      refine .inr ⟨rfl, rfl, (source operation.path session.state).1, (source operation.path session.state).2, ?_⟩
      simp only [step, hrun, Cache.read, hfound]
      rfl

theorem isSome_find?_step : ((session.step source operation).cache.find? path).isSome = true ↔
    operation.Reads path ∨ ¬ operation.Forgets path ∧ (session.cache.find? path).isSome = true := by
  unfold Operation.Reads Operation.Forgets
  rcases step_cases source session operation with ⟨h, hstep⟩ | ⟨h, kept, hkept, hstep⟩ | ⟨h, -, answer, state, hstep⟩
  · rw [hstep, Cache.find?_forget]
    by_cases hsame : steps operation.path = steps path <;> simp [h, hsame]
  · rw [hstep]
    by_cases hsame : steps operation.path = steps path
    · have hfound : session.cache.find? path = some kept := by
        rw [← hkept, Cache.find?, Cache.find?, hsame]
      simp [h, hsame, hfound]
    · simp [h, hsame]
  · rw [hstep, Cache.find?_keep]
    by_cases hsame : steps operation.path = steps path <;> simp [h, hsame]

theorem find?_step_of_apart (h : steps operation.path ≠ steps path) :
    (session.step source operation).cache.find? path = session.cache.find? path := by
  rcases step_cases source session operation with ⟨-, hstep⟩ | ⟨-, kept, -, hstep⟩ | ⟨-, -, answer, state, hstep⟩
  · rw [hstep, Cache.find?_forget, if_neg h]
  · rw [hstep]
  · rw [hstep, Cache.find?_keep, if_neg h]

theorem nodup_step (h : session.cache.keys.Nodup) : (session.step source operation).cache.keys.Nodup := by
  rcases step_cases source session operation with ⟨-, hstep⟩ | ⟨-, kept, -, hstep⟩ | ⟨-, -, answer, state, hstep⟩
  · rw [hstep]
    exact Cache.nodup_forget h
  · rwa [hstep]
  · rw [hstep]
    exact Cache.nodup_keep h

end Session

/-! ### Periods -/

theorem readSince_cons_iff {event : Event} {earlier : List Event} {path : String} :
    ReadSince path (event :: earlier) ↔
      event.operation.Reads path ∨ ¬ event.operation.Forgets path ∧ ReadSince path earlier := by
  constructor
  · rintro (reads | ⟨keeps, read⟩)
    · exact .inl reads
    · exact .inr ⟨keeps, read⟩
  · rintro (reads | ⟨keeps, read⟩)
    · exact .now reads
    · exact .before keeps read

namespace Session

variable {source : FileSource (StateM σ)} {session : Session σ} {operation : Operation} {path : String}

/-- What holds of a session whatever was done in it. -/
structure Replays (session : Session σ) : Prop where
  /-- There is an entry for a path exactly while it has a period. -/
  holds : ∀ path, (session.cache.find? path).isSome = true ↔ ReadSince path session.events
  /-- No path has two entries. -/
  nodup : session.cache.keys.Nodup
  exists_path : ∀ key ∈ session.cache.keys, ∃ path, steps path = key
  /-- An entry is what the source said to the read that opened the period. -/
  entries : ∀ path kept, session.cache.find? path = some kept → ∃ opening answer,
    OpenedBy path opening session.events ∧ opening.requests = [⟨opening.operation.path, answer⟩] ∧
      kept = answer.mapError (.read opening.operation.path)
  follows : ∀ event earlier, event :: earlier <:+ session.events → event.Follows earlier

/-- What is done without forgetting a path leaves the read that opened its period. -/
theorem Replays.exists_opening_cons (h : session.Replays) {event : Event} {kept : FileAnswer}
    (hkeeps : ¬ event.operation.Forgets path) (hkept : session.cache.find? path = some kept) :
    ∃ opening answer, OpenedBy path opening (event :: session.events) ∧
      opening.requests = [⟨opening.operation.path, answer⟩] ∧
        kept = answer.mapError (.read opening.operation.path) := by
  obtain ⟨opening, answer, opened, hopening, hanswer⟩ := h.entries path kept hkept
  exact ⟨opening, answer, .before hkeeps opened, hopening, hanswer⟩

theorem Replays.step (h : session.Replays) (source : FileSource (StateM σ)) (operation : Operation) :
    (session.step source operation).Replays where
  holds path := by
    rw [isSome_find?_step, h.holds]
    obtain ⟨requests, response, hevents⟩ : ∃ requests response,
        (session.step source operation).events = ⟨operation, requests, response⟩ :: session.events := ⟨_, _, rfl⟩
    rw [hevents, readSince_cons_iff]
  nodup := nodup_step h.nodup
  exists_path key hkey := by
    rcases step_cases source session operation with ⟨-, hstep⟩ | ⟨-, kept, -, hstep⟩ | ⟨-, -, answer, state, hstep⟩
    · rw [hstep] at hkey
      exact h.exists_path key (Cache.keys_forget_subset hkey)
    · rw [hstep] at hkey
      exact h.exists_path key hkey
    · rw [hstep] at hkey
      rcases List.mem_cons.mp hkey with rfl | hother
      · exact ⟨operation.path, rfl⟩
      · exact h.exists_path key (Cache.keys_forget_subset hother)
  entries path kept hkept := by
    rcases step_cases source session operation with ⟨-, hstep⟩ | ⟨hread, _, -, hstep⟩ |
      ⟨hread, hnone, answer, state, hstep⟩
    · rw [hstep] at hkept ⊢
      rw [Cache.find?_forget] at hkept
      by_cases hsame : steps operation.path = steps path
      · rw [if_pos hsame] at hkept
        cases hkept
      · rw [if_neg hsame] at hkept
        exact h.exists_opening_cons (fun hforgets => hsame hforgets.2) hkept
    · rw [hstep] at hkept ⊢
      exact h.exists_opening_cons (fun hforgets => Bool.false_ne_true (hread.symm.trans hforgets.1)) hkept
    · rw [hstep] at hkept ⊢
      rw [Cache.find?_keep] at hkept
      by_cases hsame : steps operation.path = steps path
      · -- Nothing was kept for the path, so its period begins here.
        rw [if_pos hsame] at hkept
        cases hkept
        refine ⟨_, answer, .now ⟨hread, hsame⟩ ?_, rfl, rfl⟩
        rw [← h.holds, Cache.find?, ← hsame, ← Cache.find?, hnone]
        exact Bool.false_ne_true
      · rw [if_neg hsame] at hkept
        exact h.exists_opening_cons (fun hforgets => hsame hforgets.2) hkept
  follows event earlier hsuffix := by
    rcases step_cases source session operation with ⟨hforget, hstep⟩ | ⟨hread, kept, hkept, hstep⟩ |
      ⟨hread, hnone, answer, state, hstep⟩
    -- What was there before followed already; what is new does so in each of the three cases.
    all_goals
      rw [hstep] at hsuffix
      rcases List.suffix_cons_iff.mp hsuffix with hnew | hearlier
      case inr => exact h.follows event earlier hearlier
      obtain ⟨rfl, rfl⟩ := List.cons.inj hnew
    · exact .forgets hforget rfl
    · obtain ⟨opening, answer, opened, hopening, rfl⟩ := h.entries operation.path kept hkept
      exact .repeats hread rfl opening opened answer hopening rfl
    · refine .opens hread ?_ answer rfl rfl
      rw [← h.holds, hnone]
      exact Bool.false_ne_true

/-- A session over some operations, with nothing remembered at first. -/
def run (source : FileSource (StateM σ)) (state : σ) (operations : List Operation) : Session σ :=
  operations.foldl (step source) { state }

theorem Replays.foldl (h : session.Replays) (operations : List Operation) :
    (operations.foldl (Session.step source) session).Replays := by
  induction operations generalizing session with
  | nil => exact h
  | cons operation operations ih => exact ih (h.step source operation)

theorem operations_foldl (operations : List Operation) :
    (operations.foldl (step source) session).events.map Event.operation =
      operations.reverse ++ session.events.map Event.operation := by
  induction operations generalizing session with
  | nil => rfl
  | cons operation operations ih =>
    rw [List.foldl_cons, ih, List.reverse_cons, List.append_assoc]
    rfl

/-- Whatever is asked of a cache, and however its source of files changes in the meantime: it has an entry for each
path that was read since it was last forgotten, and for no other one. The source is asked once in each such period,
and every read answers with what it said then. Nothing that is done about other paths has a part in it. -/
theorem run_replays (source : FileSource (StateM σ)) (state : σ) (operations : List Operation) :
    (run source state operations).events.map Event.operation = operations.reverse ∧
    (run source state operations).Replays ∧
    (∃ keys : List (List Step), keys.Nodup ∧ keys.length = (run source state operations).cache.size ∧
      ∀ key, key ∈ keys ↔ ∃ path, steps path = key ∧ ReadSince path (run source state operations).events) ∧
    ∀ operation path, steps operation.path ≠ steps path →
      ((run source state operations).step source operation).cache.find? path =
        (run source state operations).cache.find? path := by
  -- At first there is neither an entry nor an event.
  have start : Replays (σ := σ) { state } := by
    refine ⟨fun path => ?_, .nil, nofun, nofun, fun event earlier hsuffix => ?_⟩
    · exact iff_of_false Bool.false_ne_true nofun
    · exact absurd (List.suffix_nil.mp hsuffix) (List.cons_ne_nil _ _)
  have replays : (run source state operations).Replays := start.foldl operations
  refine ⟨?_, replays, ⟨(run source state operations).cache.keys, replays.nodup, List.length_map _, fun key => ?_⟩,
    fun _ _ => find?_step_of_apart⟩
  · exact (operations_foldl operations).trans (List.append_nil _)
  · constructor
    · intro hkey
      obtain ⟨path, rfl⟩ := replays.exists_path key hkey
      exact ⟨path, rfl, (replays.holds path).mp (Cache.isSome_find?_iff.mpr hkey)⟩
    · rintro ⟨path, rfl, hread⟩
      exact Cache.isSome_find?_iff.mp ((replays.holds path).mpr hread)

end Session

end Cache

end Exemplar
