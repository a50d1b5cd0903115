/-
The allocator over whole runs: any sequence of requests, from any list of reserved words.

- `Request`, `serve`: what may be asked of the allocator, and the answers to requests one after the other.
- `Books`: what the record of requests and answers says about the allocator, and the rules it obeys. One
  request keeps it (`Books.answer`), so every run does (`books_serve`).
- `answers_over_whole_runs`: the main statement. Two requests get the same name exactly when they are one
  request, or ask for the same user's name in the same role.
-/
import Blockwork.Proofs.Naming

namespace Blockwork.Names

/-! ## Requests and answers -/

/-- something asked of the allocator -/
inductive Request
  | distinct (base : String)
  | bind (role : Role) (user : String)
  deriving DecidableEq

def answer (names : Names) : Request → String × Names
  | .distinct base => names.distinct base
  | .bind role user => names.bind role user

def serve (names : Names) : List Request → List String × Names
  | [] => ([], names)
  | request :: rest =>
    let (name, after) := names.answer request
    let (others, last) := after.serve rest
    (name :: others, last)

/-- the name that an entry of a record gives to a variable -/
def variableAnswer? : Request × String → Option String
  | (.bind .variable _, name) => some name
  | _ => none

/-- the answers to requests for variables, in order -/
def variableAnswers (record : List (Request × String)) : List String :=
  record.filterMap variableAnswer?

theorem serve_concat (names : Names) (requests : List Request) (request : Request) :
    names.serve (requests ++ [request]) =
      ((names.serve requests).1 ++ [((names.serve requests).2.answer request).1],
        ((names.serve requests).2.answer request).2) := by
  induction requests generalizing names with
  | nil => rfl
  | cons first rest ih => simp only [List.cons_append, serve, ih]

theorem length_serve (names : Names) (requests : List Request) :
    (names.serve requests).1.length = requests.length := by
  induction requests generalizing names with
  | nil => rfl
  | cons first rest ih => simp only [serve, List.length_cons, ih]

/-! ## The books of an allocator -/

theorem eraseDups_concat (names : List String) (name : String) :
    (names ++ [name]).eraseDups = if name ∈ names then names.eraseDups else names.eraseDups ++ [name] := by
  rw [List.eraseDups_append]
  split_ifs with h
  · simp [List.removeAll, h]
  · simp [List.removeAll, h, List.eraseDups_cons]

theorem variableAnswer?_eq_some {entry : Request × String} {name : String} (h : variableAnswer? entry = some name) :
    entry.2 = name := by
  unfold variableAnswer? at h
  split at h
  · exact Option.some.inj h
  · cases h

/-- whoever has an answer among those to requests for variables has it in the record -/
theorem mem_of_mem_variableAnswers {record : List (Request × String)} {name : String}
    (h : name ∈ variableAnswers record) : ∃ entry ∈ record, entry.2 = name := by
  obtain ⟨entry, hm, hv⟩ := List.mem_filterMap.1 h
  exact ⟨entry, hm, variableAnswer?_eq_some hv⟩

/-- two entries have the same name only if both ask for one user's name in one role -/
def Apart (entry other : Request × String) : Prop :=
  entry.2 = other.2 → ∃ role user, entry.1 = .bind role user ∧ other.1 = .bind role user

instance : Std.Symm Apart where
  symm entry other h he := by
    obtain ⟨role, user, h1, h2⟩ := h he.symm
    exact ⟨role, user, h2, h1⟩

/-- what the record of all requests and answers says about an allocator that started from `reserved` -/
structure Books (reserved : List String) (record : List (Request × String)) (names : Names) : Prop where
  issued : ∀ name, name ∈ names.issued ↔ name ∈ reserved ∨ ∃ request, (request, name) ∈ record
  bound : ∀ role user name, names.binding? role user = some name ↔ (.bind role user, name) ∈ record
  unreserved : ∀ entry ∈ record, entry.2 ∉ reserved
  identifier : ∀ entry ∈ record, IsIdentifier entry.2
  apart : record.Pairwise Apart
  variableNames : names.variableNames = (variableAnswers record).eraseDups

variable {reserved : List String} {record : List (Request × String)} {names : Names}

theorem books_start (reserved : List String) : Books reserved [] (start reserved) where
  issued := by simp [start]
  bound := by simp [start, binding?]
  unreserved := by simp
  identifier := by simp
  apart := .nil
  variableNames := rfl

/-- a user's name in a role is answered with one name only -/
theorem Books.bound_unique (h : Books reserved record names) {role : Role} {user name name' : String}
    (h1 : (.bind role user, name) ∈ record) (h2 : (.bind role user, name') ∈ record) : name = name' := by
  have hb := (h.bound role user name).2 h1
  rw [(h.bound role user name').2 h2] at hb
  exact (Option.some.inj hb).symm

/-- whoever has the name of a bound user's name is that user's name -/
theorem Books.eq_bind (h : Books reserved record names) {role : Role} {user name : String} {request : Request}
    (h1 : (.bind role user, name) ∈ record) (h2 : (request, name) ∈ record) : request = .bind role user := by
  by_cases he : request = .bind role user
  · exact he
  · have hne : ((Request.bind role user, name) : Request × String) ≠ (request, name) := by
      intro heq
      exact he (Prod.mk.inj heq).1.symm
    obtain ⟨role', user', hb, hr⟩ := h.apart.forall h1 h2 hne rfl
    exact hr.trans hb.symm

/-- a name that is new to the allocator is new to the record -/
theorem Books.fresh (h : Books reserved record names) {name : String} (hn : name ∉ names.issued) :
    name ∉ reserved ∧ ∀ entry ∈ record, entry.2 ≠ name := by
  refine ⟨fun hr => hn ((h.issued name).2 (.inl hr)), ?_⟩
  rintro ⟨request, other⟩ hm rfl
  exact hn ((h.issued other).2 (.inr ⟨request, hm⟩))

/-- the record with one more entry under a new name -/
theorem Books.grow (h : Books reserved record names) {request : Request} {base : String} {after : Names}
    (hissued : after.issued = (names.distinct base).1 :: names.issued)
    (hbound : ∀ role user name, after.binding? role user = some name ↔
      names.binding? role user = some name ∨ (request = .bind role user ∧ name = (names.distinct base).1))
    (hvariables : after.variableNames =
      names.variableNames ++ (variableAnswer? (request, (names.distinct base).1)).toList) :
    Books reserved (record ++ [(request, (names.distinct base).1)]) after := by
  have hnew := distinct_not_mem names base
  have hidentifier := isIdentifier_distinct names base
  generalize (names.distinct base).1 = name at hissued hbound hvariables hnew hidentifier ⊢
  obtain ⟨hreserved, hrecord⟩ := h.fresh hnew
  constructor
  · intro other
    simp only [hissued, List.mem_cons, h.issued, List.mem_append, Prod.mk.injEq, List.not_mem_nil, or_false]
    constructor
    · rintro (rfl | hr | ⟨request', hm⟩)
      · exact .inr ⟨request, .inr ⟨rfl, rfl⟩⟩
      · exact .inl hr
      · exact .inr ⟨request', .inl hm⟩
    · rintro (hr | ⟨request', hm | ⟨-, rfl⟩⟩)
      · exact .inr (.inl hr)
      · exact .inr (.inr ⟨request', hm⟩)
      · exact .inl rfl
  · intro role user other
    rw [hbound, h.bound, List.mem_append, List.mem_singleton, Prod.mk.injEq]
    constructor
    · rintro (hm | ⟨rfl, rfl⟩)
      · exact .inl hm
      · exact .inr ⟨rfl, rfl⟩
    · rintro (hm | ⟨rfl, rfl⟩)
      · exact .inl hm
      · exact .inr ⟨rfl, rfl⟩
  · exact List.forall_mem_append.2 ⟨h.unreserved, List.forall_mem_singleton.2 hreserved⟩
  · exact List.forall_mem_append.2 ⟨h.identifier, List.forall_mem_singleton.2 hidentifier⟩
  · refine List.pairwise_append.2 ⟨h.apart, List.pairwise_singleton _ _, fun entry hm other ho he => ?_⟩
    rw [List.mem_singleton.1 ho] at he
    exact absurd he (hrecord entry hm)
  · rw [hvariables, h.variableNames, variableAnswers, variableAnswers, List.filterMap_append]
    cases hv : variableAnswer? (request, name) with
    | none => simp [hv]
    | some other =>
      obtain rfl : name = other := variableAnswer?_eq_some hv
      have hout : name ∉ record.filterMap variableAnswer? := by
        intro hm
        obtain ⟨entry, he, hn⟩ := mem_of_mem_variableAnswers hm
        exact hrecord entry he hn
      simp only [List.filterMap_cons, List.filterMap_nil, hv, Option.toList_some, eraseDups_concat, if_neg hout]

theorem Books.distinct (h : Books reserved record names) (base : String) :
    Books reserved (record ++ [(.distinct base, (names.distinct base).1)]) (names.distinct base).2 := by
  refine h.grow rfl (fun role user name => ?_) (List.append_nil _).symm
  exact ⟨.inl, fun hb => hb.elim id fun hb => nomatch hb.1⟩

/-- a request that repeats an earlier one for a user's name -/
theorem Books.again (h : Books reserved record names) {role : Role} {user name : String}
    (hb : names.binding? role user = some name) : Books reserved (record ++ [(.bind role user, name)]) names := by
  have hm := (h.bound role user name).1 hb
  have hmem : ∀ entry, entry ∈ record ++ [(.bind role user, name)] ↔ entry ∈ record := by
    intro entry
    rw [List.mem_append, List.mem_singleton]
    exact ⟨fun he => he.elim id fun he => he ▸ hm, .inl⟩
  constructor
  · intro other
    simp only [h.issued, hmem]
  · intro role' user' other
    rw [h.bound, hmem]
  · exact fun entry he => h.unreserved entry ((hmem entry).1 he)
  · exact fun entry he => h.identifier entry ((hmem entry).1 he)
  · refine List.pairwise_append.2 ⟨h.apart, List.pairwise_singleton _ _, fun entry he other ho heq => ?_⟩
    obtain rfl := List.mem_singleton.1 ho
    obtain ⟨request, name'⟩ := entry
    obtain rfl : name' = name := heq
    exact ⟨role, user, h.eq_bind hm he, rfl⟩
  · rw [h.variableNames, variableAnswers, variableAnswers, List.filterMap_append]
    cases hv : variableAnswer? (.bind role user, name) with
    | none => simp [hv]
    | some other =>
      obtain rfl : name = other := variableAnswer?_eq_some hv
      have hin : name ∈ record.filterMap variableAnswer? := List.mem_filterMap.2 ⟨_, hm, hv⟩
      simp only [List.filterMap_cons, List.filterMap_nil, hv, eraseDups_concat, if_pos hin]

theorem Books.bind (h : Books reserved record names) (role : Role) (user : String) :
    Books reserved (record ++ [(.bind role user, (names.bind role user).1)]) (names.bind role user).2 := by
  unfold Names.bind
  cases hb : names.binding? role user with
  | some name => exact h.again hb
  | none =>
    refine h.grow rfl (fun role' user' name => ?_) ?_
    · unfold binding? at hb ⊢
      rw [List.lookup_cons]
      by_cases hk : (role', user') = (role, user)
      · obtain ⟨rfl, rfl⟩ := Prod.mk.inj hk
        simp [hb, eq_comm, Names.distinct]
      · rw [beq_false_of_ne hk]
        refine ⟨.inl, fun hor => hor.elim id fun hor => ?_⟩
        injection hor.1 with h1 h2
        exact absurd (by rw [h1, h2]) hk
    · cases role <;> simp [variableAnswer?, Names.distinct]

/-- the variables are the names given to variables -/
theorem Books.mem_variableNames (h : Books reserved record names) (name : String) :
    name ∈ names.variableNames ↔ ∃ user, (.bind .variable user, name) ∈ record := by
  rw [h.variableNames, List.mem_eraseDups, variableAnswers, List.mem_filterMap]
  constructor
  · rintro ⟨entry, hm, hv⟩
    unfold variableAnswer? at hv
    split at hv
    · cases hv
      exact ⟨_, hm⟩
    · cases hv
  · rintro ⟨user, hm⟩
    exact ⟨_, hm, rfl⟩

/-- **One request keeps the books.** -/
theorem Books.answer (h : Books reserved record names) (request : Request) :
    Books reserved (record ++ [(request, (names.answer request).1)]) (names.answer request).2 := by
  cases request with
  | distinct base => exact h.distinct base
  | bind role user => exact h.bind role user

def runRecord (reserved : List String) (requests : List Request) : List (Request × String) :=
  requests.zip ((start reserved).serve requests).1

/-- **Every run keeps the books.** -/
theorem books_serve (reserved : List String) (requests : List Request) :
    Books reserved (runRecord reserved requests) ((start reserved).serve requests).2 := by
  induction requests using List.reverseRecOn with
  | nil => exact books_start reserved
  | append_singleton requests request ih =>
    have h := ih.answer request
    unfold runRecord at h ⊢
    rw [serve_concat, List.zip_append (length_serve _ _).symm]
    exact h

/-! ## Whole runs -/

/-- two answers of a record are the same name exactly when they are one answer, or answer one user's name in
one role -/
theorem Books.same_iff (h : Books reserved record names) {i j : Nat} {entry other : Request × String}
    (hi : record[i]? = some entry) (hj : record[j]? = some other) :
    entry.2 = other.2 ↔ i = j ∨ ∃ role user, entry.1 = .bind role user ∧ other.1 = .bind role user := by
  obtain ⟨hil, rfl⟩ := List.getElem?_eq_some_iff.1 hi
  obtain ⟨hjl, rfl⟩ := List.getElem?_eq_some_iff.1 hj
  constructor
  · intro he
    rcases Nat.lt_trichotomy i j with hlt | heq | hgt
    · exact .inr (List.pairwise_iff_getElem.1 h.apart i j hil hjl hlt he)
    · exact .inl heq
    · obtain ⟨role, user, h1, h2⟩ := List.pairwise_iff_getElem.1 h.apart j i hjl hil hgt he.symm
      exact .inr ⟨role, user, h2, h1⟩
  · rintro (rfl | ⟨role, user, h1, h2⟩)
    · rfl
    · have hi' : (Request.bind role user, record[i].2) ∈ record := h1 ▸ List.getElem_mem hil
      have hj' : (Request.bind role user, record[j].2) ∈ record := h2 ▸ List.getElem_mem hjl
      exact h.bound_unique hi' hj'

theorem nodup_eraseDups (names : List String) : names.eraseDups.Nodup := by
  induction names using List.reverseRecOn with
  | nil => exact List.nodup_nil
  | append_singleton names name ih =>
    rw [eraseDups_concat]
    split_ifs with h
    · exact ih
    · have hout : name ∉ names.eraseDups := mt List.mem_eraseDups.1 h
      rw [← List.concat_eq_append]
      exact ih.concat hout

/-- **The allocator over whole runs.** Whatever the reserved words and the requests, every request is answered,
with an identifier that is no reserved word. Two answers are the same name exactly when they are one answer, or
answer the same user's name in the same role: so a name asked for again stays as it was first given, whatever
happened in between, and any other answer is new. The variables are the names given to variables, in order of
first request, each once. -/
theorem answers_over_whole_runs (reserved : List String) (requests : List Request) :
    (runRecord reserved requests).map Prod.fst = requests ∧
    (∀ entry ∈ runRecord reserved requests, IsIdentifier entry.2 ∧ entry.2 ∉ reserved) ∧
    (∀ (i j : Nat) (entry other : Request × String), (runRecord reserved requests)[i]? = some entry →
      (runRecord reserved requests)[j]? = some other → (entry.2 = other.2 ↔
        i = j ∨ ∃ role user, entry.1 = .bind role user ∧ other.1 = .bind role user)) ∧
    ((start reserved).serve requests).2.variableNames =
      (variableAnswers (runRecord reserved requests)).eraseDups ∧
    ((start reserved).serve requests).2.variableNames.Nodup := by
  have hbooks := books_serve reserved requests
  refine ⟨?_, fun entry he => ⟨hbooks.identifier entry he, hbooks.unreserved entry he⟩,
    fun i j entry other hi hj => hbooks.same_iff hi hj, hbooks.variableNames, ?_⟩
  · exact List.map_fst_zip (length_serve _ _).ge
  · rw [hbooks.variableNames]
    exact nodup_eraseDups _

/-- suffixes run into what other users wrote themselves -/
example : ((start ["for"]).serve [.bind .variable "a", .distinct "a", .bind .variable "a2", .bind .procedure "a",
    .bind .variable "2a", .distinct "my_2a", .bind .variable "for", .bind .variable "a"]).1 =
      ["a", "a2", "a22", "a3", "my_2a", "my_2a2", "for2", "a"] := by
  rfl

end Blockwork.Names
