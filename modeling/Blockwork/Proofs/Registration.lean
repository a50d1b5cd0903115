/-
The registry over whole runs: any sequence of requests, each with its own builder. A builder may read and
change a state of any type, so the state after a run shows which builders were carried out, and in which order.

- `Request`, `serve`: a key with its builder, and the answers to requests one after the other.
- `firsts`: the requests that ask for a key before any other request does.
- `Ledger`: what the requests so far say about the registry. One request keeps it (`Ledger.request`), so every
  run does (`ledger_serve`).
- `definitions_over_whole_runs`: the main statement. Only the builders of `firsts` are carried out; the
  definitions are what they make, each under its own key, and every request is answered with one of them.
-/
import Blockwork.Proofs.Allocation
import Blockwork.Registry

namespace Blockwork.Registry

variable {σ : Type}

/-! ## Requests and answers -/

/-- a key, and what makes its definition in case there is none -/
structure Request (σ : Type) where
  key : String
  build : StateM σ (Option String × String)

def Request.write (request : Request σ) : StateM σ Definition := do
  let (name, source) ← request.build
  pure { key := request.key, name, source }

def buildAll (requests : List (Request σ)) : StateM σ (List Definition) :=
  requests.mapM Request.write

/-- the answers to requests one after the other, and the registry after the last -/
def serve (registry : Registry) : List (Request σ) → StateM σ (List Definition × Registry)
  | [] => pure ([], registry)
  | request :: rest => do
    let (answer, after) ← registry.requestWith request.key request.build
    let (others, last) ← after.serve rest
    pure (answer :: others, last)

/-- the requests for a key that is neither known nor asked for before -/
def firstsBeyond (known : List String) : List (Request σ) → List (Request σ)
  | [] => []
  | request :: rest =>
    if request.key ∈ known then firstsBeyond known rest
    else request :: firstsBeyond (request.key :: known) rest

/-- the requests for a key that is not asked for before -/
def firsts (requests : List (Request σ)) : List (Request σ) :=
  firstsBeyond [] requests

def nameless (registry : Registry) : List Definition :=
  registry.entries.filter (·.name.isNone)

def named (registry : Registry) : List Definition :=
  registry.entries.filter (·.name.isSome)

theorem firstsBeyond_concat (known : List String) (requests : List (Request σ)) (request : Request σ) :
    firstsBeyond known (requests ++ [request]) = firstsBeyond known requests ++
      if request.key ∈ known ∨ request.key ∈ requests.map Request.key then [] else [request] := by
  induction requests generalizing known with
  | nil => simp [firstsBeyond]
  | cons first rest ih =>
    simp only [List.cons_append, firstsBeyond, ih, List.map_cons, List.mem_cons]
    by_cases hknown : first.key ∈ known
    · -- a known key that is asked for once more: it is `known` that decides
      have hiff : (request.key ∈ known ∨ request.key = first.key ∨ request.key ∈ rest.map Request.key) ↔
          request.key ∈ known ∨ request.key ∈ rest.map Request.key :=
        or_congr_right' fun hnew => or_iff_right fun he => hnew (he ▸ hknown)
      simp only [if_pos hknown, hiff]
    · simp only [if_neg hknown, List.cons_append, or_assoc, or_left_comm]

theorem firsts_concat (requests : List (Request σ)) (request : Request σ) :
    firsts (requests ++ [request]) =
      if request.key ∈ requests.map Request.key then firsts requests else firsts requests ++ [request] := by
  rw [firsts, firstsBeyond_concat]
  split_ifs <;> simp_all [firsts]

theorem buildAll_concat (requests : List (Request σ)) (request : Request σ) :
    buildAll (requests ++ [request]) = (do
      let definitions ← buildAll requests
      let definition ← request.write
      pure (definitions ++ [definition])) := by
  simp [buildAll, List.mapM_append]

theorem serve_concat (registry : Registry) (requests : List (Request σ)) (request : Request σ) :
    registry.serve (requests ++ [request]) = (do
      let (answers, after) ← registry.serve requests
      let (answer, last) ← after.requestWith request.key request.build
      pure (answers ++ [answer], last)) := by
  induction requests generalizing registry with
  | nil => simp [serve]
  | cons first rest ih => simp [serve, ih]

/-! ## The index -/

theorem contains_iff_mem_keys (registry : Registry) (key : String) : registry.contains key ↔ key ∈ registry.keys := by
  simp [contains_eq, find?_eq, keys]

/-- the index leads from each key to its own place, and from no other key to any place -/
theorem lookup_index_iff {registry : Registry} (h : registry.keys.Nodup) (key : String) (place : Nat) :
    registry.index.lookup key = some place ↔ registry.keys[place]? = some key := by
  rw [registry.inStep, List.findIdx?_eq_some_iff_getElem, List.getElem?_eq_some_iff]
  simp only [keys, List.length_map, List.getElem_map, beq_iff_eq]
  constructor
  · rintro ⟨hplace, hkey, -⟩
    exact ⟨hplace, hkey⟩
  · rintro ⟨hplace, hkey⟩
    refine ⟨hplace, hkey, fun other hother he => ?_⟩
    have hlength : other < registry.keys.length := by simpa [keys] using hother.trans hplace
    have hsame : registry.keys[other]? = registry.keys[place]? := by
      simp [keys, List.getElem?_eq_getElem hplace, List.getElem?_eq_getElem (hother.trans hplace), he, hkey]
    exact hother.ne ((List.getElem?_inj hlength h).1 hsame)

/-- a definition that is found stays the one that is found, whatever is written behind it -/
theorem find?_push_of_some {registry : Registry} {key : String} {definition : Definition}
    (h : registry.find? key = some definition) (new : Definition) :
    (registry.push new).find? key = some definition := by
  rw [find?_eq] at h ⊢
  rw [push, List.find?_append, h, Option.some_or]

theorem find?_push_of_none {registry : Registry} {new : Definition} (h : registry.find? new.key = none) :
    (registry.push new).find? new.key = some new := by
  rw [find?_eq] at h ⊢
  simp [push, List.find?_append, h]

/-! ## The ledger of a registry -/

/-- what the requests and answers so far, made from `state` on, say about the registry -/
structure Ledger (state : σ) (requests : List (Request σ)) (answers : List Definition) (registry : Registry)
    (after : σ) : Prop where
  written : (buildAll (firsts requests)).run state = (registry.entries, after)
  keys : registry.keys = (requests.map Request.key).eraseDups
  answered : List.Forall₂ (fun request answer => registry.find? request.key = some answer) requests answers

variable {state after : σ} {requests : List (Request σ)} {answers : List Definition} {registry : Registry}

theorem ledger_start (state : σ) : Ledger state [] [] empty state where
  written := rfl
  keys := rfl
  answered := .nil

theorem Ledger.contains_iff (h : Ledger state requests answers registry after) (key : String) :
    registry.contains key ↔ key ∈ requests.map Request.key := by
  rw [contains_iff_mem_keys, h.keys, List.mem_eraseDups]

theorem Ledger.again (h : Ledger state requests answers registry after) {request : Request σ}
    {definition : Definition} (hfind : registry.find? request.key = some definition) :
    Ledger state (requests ++ [request]) (answers ++ [definition]) registry after := by
  have hkey : request.key ∈ requests.map Request.key :=
    (h.contains_iff request.key).1 (by rw [contains_eq, hfind, Option.isSome_some])
  constructor
  · rw [firsts_concat, if_pos hkey]
    exact h.written
  · rw [List.map_append, List.map_singleton, Names.eraseDups_concat, if_pos hkey]
    exact h.keys
  · exact List.rel_append h.answered (.cons hfind .nil)

theorem Ledger.grow (h : Ledger state requests answers registry after) {request : Request σ}
    {definition : Definition} {last : σ} (hfind : registry.find? request.key = none)
    (hwrite : request.write.run after = (definition, last)) (hdefinition : definition.key = request.key) :
    Ledger state (requests ++ [request]) (answers ++ [definition]) (registry.push definition) last := by
  have hkey : request.key ∉ requests.map Request.key := by
    rw [← h.contains_iff, contains_eq, hfind]
    exact Bool.false_ne_true
  constructor
  · rw [firsts_concat, if_neg hkey, buildAll_concat, StateT.run_bind, h.written]
    show (request.write >>= fun definition => pure (registry.entries ++ [definition])).run after = _
    rw [StateT.run_bind, hwrite]
    rfl
  · rw [List.map_append, List.map_singleton, Names.eraseDups_concat, if_neg hkey, ← h.keys, ← hdefinition]
    exact List.map_append
  · refine List.rel_append (h.answered.imp fun _ _ hf => find?_push_of_some hf definition) (.cons ?_ .nil)
    rw [← hdefinition] at hfind ⊢
    exact find?_push_of_none hfind

/-- **One request keeps the ledger.** -/
theorem Ledger.request (h : Ledger state requests answers registry after) (request : Request σ) :
    ∃ answer registry' last, (registry.requestWith request.key request.build).run after = ((answer, registry'), last) ∧
      Ledger state (requests ++ [request]) (answers ++ [answer]) registry' last := by
  cases hfind : registry.find? request.key with
  | some definition => exact ⟨definition, registry, after, by rw [requestWith, hfind]; rfl, h.again hfind⟩
  | none =>
    refine ⟨_, _, _, by rw [requestWith, hfind]; rfl, h.grow hfind rfl rfl⟩

/-- **Every run keeps the ledger.** -/
theorem ledger_serve (state : σ) (requests : List (Request σ)) :
    ∃ answers registry after, (serve empty requests).run state = ((answers, registry), after) ∧
      Ledger state requests answers registry after := by
  induction requests using List.reverseRecOn with
  | nil => exact ⟨[], empty, state, rfl, ledger_start state⟩
  | append_singleton requests request ih =>
    obtain ⟨answers, registry, after, hserve, hledger⟩ := ih
    obtain ⟨answer, registry', last, hrequest, hledger'⟩ := hledger.request request
    refine ⟨answers ++ [answer], registry', last, ?_, hledger'⟩
    rw [serve_concat, StateT.run_bind, hserve]
    show (registry.requestWith request.key request.build >>= fun next =>
      pure (answers ++ [next.1], next.2)).run after = _
    rw [StateT.run_bind, hrequest]
    rfl

/-! ## Whole runs -/

/-- no definition is lost or doubled between those without and those with a name -/
theorem nameless_append_named (registry : Registry) : (registry.nameless ++ registry.named).Perm registry.entries := by
  have hnot : (fun definition : Definition => !definition.name.isNone) = fun definition => definition.name.isSome :=
    funext fun definition => by cases definition.name <;> rfl
  have hperm := List.filter_append_perm (fun definition : Definition => definition.name.isNone) registry.entries
  rwa [hnot] at hperm

theorem render_eq (registry : Registry) :
    registry.render = Text.joinWith "\n\n"
      ((if Text.joinWith "\n" (registry.nameless.map Definition.source) = "" then []
        else [Text.joinWith "\n" (registry.nameless.map Definition.source)]) ++
      registry.named.map Definition.source) := by
  simp only [render, sections, importBlock, ← nameless.eq_def, ← named.eq_def, String.isEmpty_iff]
  split_ifs <;> rfl

/-- **The registry over whole runs.** Whatever the requests and their builders, on a new registry only the builders
of first requests are carried out, each once and in order, and what they make are the definitions. The keys are
the requested ones in order of first request, each once; the index leads from each to its own place, and from
nothing else to any place; a key is there exactly when it was asked for, and then leads to a definition. Every
request is answered with the definition that its key still has at the end. The text has each source once: those
without a name first, as one section unless it is empty, then each of the others, always in order of first request. -/
theorem definitions_over_whole_runs (requests : List (Request σ)) (state : σ) :
    ∃ answers registry after, (serve empty requests).run state = ((answers, registry), after) ∧
      (buildAll (firsts requests)).run state = (registry.entries, after) ∧
      registry.keys = (requests.map Request.key).eraseDups ∧ registry.keys.Nodup ∧
      (∀ key place, registry.index.lookup key = some place ↔ registry.keys[place]? = some key) ∧
      (∀ key, registry.contains key ↔ key ∈ requests.map Request.key) ∧
      (∀ key, registry.contains key = (registry.find? key).isSome) ∧
      List.Forall₂ (fun request answer => registry.find? request.key = some answer) requests answers ∧
      registry.entries.length = (requests.map Request.key).toFinset.card ∧
      (registry.nameless ++ registry.named).Perm registry.entries ∧
      registry.render = Text.joinWith "\n\n"
        ((if Text.joinWith "\n" (registry.nameless.map Definition.source) = "" then []
          else [Text.joinWith "\n" (registry.nameless.map Definition.source)]) ++
        registry.named.map Definition.source) := by
  obtain ⟨answers, registry, after, hserve, hledger⟩ := ledger_serve state requests
  have hnodup : registry.keys.Nodup := hledger.keys ▸ Names.nodup_eraseDups _
  have hlength : registry.entries.length = (requests.map Request.key).toFinset.card := by
    have hsame : registry.keys.toFinset = (requests.map Request.key).toFinset := by
      ext key
      rw [List.mem_toFinset, List.mem_toFinset, hledger.keys, List.mem_eraseDups]
    rw [← hsame, List.toFinset_card_of_nodup hnodup, keys, List.length_map]
  exact ⟨answers, registry, after, hserve, hledger.written, hledger.keys, hnodup, lookup_index_iff hnodup,
    hledger.contains_iff, registry.contains_eq, hledger.answered, hlength, registry.nameless_append_named,
    registry.render_eq⟩

/-- builders that count how many of them were carried out: the third request is answered with what the first wrote -/
example :
    let build : StateM Nat (Option String × String) := fun count => ((none, toString count), count + 1)
    let run := (serve empty [⟨"a", build⟩, ⟨"b", build⟩, ⟨"a", build⟩]).run 0
    run.1.1.map Definition.source = ["0", "1", "0"] ∧ run.2 = 2 := by
  exact ⟨rfl, rfl⟩

end Blockwork.Registry
