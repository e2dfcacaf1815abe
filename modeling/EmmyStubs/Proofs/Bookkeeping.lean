import Mathlib.Data.List.DropRight
import EmmyStubs.Proofs.Buckets
import EmmyStubs.Proofs.Sharing

/-! # What a cache keeps of its history

    A cache is looked up, written and cleared in any order.  What it holds and what it counts is
    told by the operations since it was cleared last, without a look at the cache:

    * **`Cache.firstOffer?`**: of all values that operations offer for a key, the first one stays.
    * **`Cache.tally`**: how many operations came upon something in what was done before them.
    * **`Cache.Records`**: entries and counts are those that the operations account for.  One
      operation keeps this (`Records.perform`), so it is so after all of them (`records_after`).
    * **`Cache.bookkeeping_exact`**: this, and what is answered after any history.
-/

namespace EmmyStubs.Cache

variable {α : Type}

/-! ## §1. Histories -/

/-- One operation on a cache. -/
inductive Operation (α : Type) where
  | get (key : Identity)
  | store (key : Identity) (value : α)
  | getOrCompute (key : Identity) (compute : Unit → α)
  | clear

namespace Operation

def isClear : Operation α → Bool
  | clear => true
  | _ => false

/-- The value that an operation has for a key, should the key have none yet. -/
def offer? : Operation α → Option (Identity × α)
  | store key value => some (key, value)
  | getOrCompute key compute => some (key, compute ())
  | _ => none

/-- The key that an operation looks up. -/
def lookUp? : Operation α → Option Identity
  | get key => some key
  | getOrCompute key _ => some key
  | _ => none

/-- The key that an operation may have to compute a value for. -/
def computes? : Operation α → Option Identity
  | getOrCompute key _ => some key
  | _ => none

end Operation

/-- The operations since the last clearing. -/
def recent (ops : List (Operation α)) : List (Operation α) :=
  ops.rtakeWhile fun op => !op.isClear

/-- What some operations offer, in order. -/
def offers (ops : List (Operation α)) : List (Identity × α) :=
  ops.filterMap Operation.offer?

/-- The value that is offered first for a key. -/
def firstOffer? (ops : List (Operation α)) (key : Identity) : Option α :=
  ((offers ops).find? (·.1 == key)).map (·.2)

/-- How many of some operations have a property that looks at the operations before, `before` those
    that come before all of them. -/
def tally (p : List (Operation α) → Operation α → Bool) (before : List (Operation α)) :
    List (Operation α) → Nat
  | [] => 0
  | op :: ops => (p before op).toNat + tally p (before ++ [op]) ops

section

variable [Vacant α]

/-- A value that is not vacant was offered first for the key. -/
def isKnown (before : List (Operation α)) (key : Identity) : Bool :=
  (firstOffer? before key).any fun v => !Vacant.isVacant v

/-- The operation looks up a key and finds it known. -/
def finds (before : List (Operation α)) (op : Operation α) : Bool :=
  op.lookUp?.any (isKnown before)

/-- The operation has to compute, as it finds nothing. -/
def computes (before : List (Operation α)) (op : Operation α) : Bool :=
  op.computes?.any fun key => !isKnown before key

/-- A cache after one more operation. -/
def perform (c : Cache α) : Operation α → Cache α
  | .get key => (c.get key).2
  | .store key value => (c.store key value).2
  | .getOrCompute key compute => (c.getOrCompute key compute).2
  | .clear => empty

/-- A new cache after some operations. -/
def after (ops : List (Operation α)) : Cache α :=
  ops.foldl perform empty

end

/-! ### One more operation -/

theorem recent_concat (ops : List (Operation α)) (op : Operation α) :
    recent (ops ++ [op]) = if op.isClear then [] else recent ops ++ [op] := by
  unfold recent
  rw [List.rtakeWhile_concat]
  cases op.isClear <;> simp

theorem recent_append {ops more : List (Operation α)} (h : ∀ op ∈ more, op.isClear = false) :
    recent (ops ++ more) = recent ops ++ more := by
  induction more using List.reverseRecOn with
  | nil => simp
  | append_singleton more op ih =>
    have hmore : ∀ op ∈ more, op.isClear = false := by
      intro op' hop'
      exact h op' (List.mem_append_left _ hop')
    have hop : op.isClear = false := h op (by simp)
    rw [← List.append_assoc, recent_concat, hop, ih hmore]
    simp

/-- Only a key without an offer takes one more. -/
theorem firstOffer?_append (ops more : List (Operation α)) (key : Identity) :
    firstOffer? (ops ++ more) key = (firstOffer? ops key).or (firstOffer? more key) := by
  unfold firstOffer? offers
  rw [List.filterMap_append, List.find?_append]
  cases (ops.filterMap Operation.offer?).find? (·.1 == key) <;> simp

theorem firstOffer?_ne_none_iff {ops : List (Operation α)} {key : Identity} :
    firstOffer? ops key ≠ none ↔ key ∈ (offers ops).map (·.1) := by
  unfold firstOffer?
  simp [List.find?_eq_none]

theorem tally_concat (p : List (Operation α) → Operation α → Bool)
    (before ops : List (Operation α)) (op : Operation α) :
    tally p before (ops ++ [op]) = tally p before ops + (p (before ++ ops) op).toNat := by
  induction ops generalizing before with
  | nil => simp [tally]
  | cons first ops ih =>
    rw [List.cons_append, tally, ih, tally, List.append_assoc]
    show _ + (_ + (p (before ++ first :: ops) op).toNat) = _
    omega

/-! ## §2. What a cache shows of its history -/

variable [Vacant α]

/-- What the cache holds, lists and counts is what the operations account for.  None of them is to
    clear the cache. -/
structure Records (ops : List (Operation α)) (c : Cache α) : Prop where
  held : ∀ key, c.held? key = firstOffer? ops key
  keys : c.keys = ((offers ops).map (·.1)).eraseDups
  hits : c.hits = tally finds [] ops
  misses : c.misses = tally computes [] ops

/-! ### One operation -/

omit [Vacant α] in
theorem keys_store (c : Cache α) (key : Identity) (value : α) :
    (c.store key value).2.keys = if c.held? key = none then c.keys ++ [key] else c.keys := by
  unfold store
  cases c.held? key <;> simp [keys]

omit [Vacant α] in
theorem counts_store (c : Cache α) (key : Identity) (value : α) :
    (c.store key value).2.hits = c.hits ∧ (c.store key value).2.misses = c.misses := by
  unfold store
  cases c.held? key <;> simp

theorem get_snd (c : Cache α) (key : Identity) :
    (c.get key).2 = { c with hits := c.hits + (c.found? key).isSome.toNat } := by
  unfold get
  cases c.found? key <;> rfl

theorem found?_eq_some_iff {c : Cache α} {key : Identity} {v : α} :
    c.found? key = some v ↔ c.held? key = some v ∧ Vacant.isVacant v = false := by
  simp [found?, Option.filter_eq_some_iff]

theorem getOrCompute_of_found {c : Cache α} {key : Identity} {v : α} (h : c.found? key = some v)
    (compute : Unit → α) : c.getOrCompute key compute = ((v, false), (c.get key).2) := by
  simp [getOrCompute, get, h]

theorem getOrCompute_of_not_found {c : Cache α} {key : Identity} (h : c.found? key = none)
    (compute : Unit → α) : c.getOrCompute key compute =
      (((c.miss.store key (compute ())).1, true), (c.miss.store key (compute ())).2) := by
  simp [getOrCompute, get, h]

/-- Where a value is found, storing another one would have changed nothing. -/
theorem entries_getOrCompute (c : Cache α) (key : Identity) (compute : Unit → α) :
    (c.getOrCompute key compute).2.entries = (c.store key (compute ())).2.entries := by
  cases hfound : c.found? key with
  | none =>
    rw [getOrCompute_of_not_found hfound]
    show (c.miss.store key (compute ())).2.entries = (c.store key (compute ())).2.entries
    unfold store
    rw [held?_miss]
    cases c.held? key <;> rfl
  | some v =>
    rw [getOrCompute_of_found hfound, get_snd]
    show c.entries = (c.store key (compute ())).2.entries
    unfold store
    rw [(found?_eq_some_iff.1 hfound).1]

section

variable {c : Cache α} {op : Operation α} (hop : op.isClear = false)
include hop

theorem entries_perform_of_none (h : op.offer? = none) : (c.perform op).entries = c.entries := by
  cases op with
  | get key =>
    show (c.get key).2.entries = c.entries
    rw [get_snd]
  | store key value => simp [Operation.offer?] at h
  | getOrCompute key compute => simp [Operation.offer?] at h
  | clear => simp [Operation.isClear] at hop

/-- An offer is stored, whether or not it is made by computing. -/
theorem entries_perform_of_some {key : Identity} {value : α} (h : op.offer? = some (key, value)) :
    (c.perform op).entries = (c.store key value).2.entries := by
  cases op with
  | get key' => simp [Operation.offer?] at h
  | store key' value' =>
    simp only [Operation.offer?, Option.some.injEq, Prod.mk.injEq] at h
    obtain ⟨rfl, rfl⟩ := h
    rfl
  | getOrCompute key' compute =>
    simp only [Operation.offer?, Option.some.injEq, Prod.mk.injEq] at h
    obtain ⟨rfl, rfl⟩ := h
    exact entries_getOrCompute c key' compute
  | clear => simp [Operation.isClear] at hop

theorem hits_perform : (c.perform op).hits
    = c.hits + (op.lookUp?.any fun key => (c.found? key).isSome).toNat := by
  cases op with
  | get key =>
    show (c.get key).2.hits = _
    rw [get_snd]
    rfl
  | store key value => exact (counts_store c key value).1
  | getOrCompute key compute =>
    show (c.getOrCompute key compute).2.hits = c.hits + (c.found? key).isSome.toNat
    cases hfound : c.found? key with
    | none =>
      rw [getOrCompute_of_not_found hfound]
      exact (counts_store c.miss key (compute ())).1
    | some v =>
      rw [getOrCompute_of_found hfound, get_snd, hfound]
  | clear => simp [Operation.isClear] at hop

theorem misses_perform : (c.perform op).misses
    = c.misses + (op.computes?.any fun key => !(c.found? key).isSome).toNat := by
  cases op with
  | get key =>
    show (c.get key).2.misses = _
    rw [get_snd]
    rfl
  | store key value => exact (counts_store c key value).2
  | getOrCompute key compute =>
    show (c.getOrCompute key compute).2.misses = c.misses + (!(c.found? key).isSome).toNat
    cases hfound : c.found? key with
    | none =>
      rw [getOrCompute_of_not_found hfound]
      exact (counts_store c.miss key (compute ())).2
    | some v =>
      rw [getOrCompute_of_found hfound, get_snd]
      rfl
  | clear => simp [Operation.isClear] at hop

end

/-! ### All operations -/

omit [Vacant α] in
theorem held?_congr {c c' : Cache α} (h : c.entries = c'.entries) (key : Identity) :
    c.held? key = c'.held? key := by
  rw [held?, held?, h]

omit [Vacant α] in
theorem keys_congr {c c' : Cache α} (h : c.entries = c'.entries) : c.keys = c'.keys := by
  rw [keys, keys, h]

omit [Vacant α] in
theorem offers_concat_of_none {ops : List (Operation α)} {op : Operation α}
    (h : op.offer? = none) : offers (ops ++ [op]) = offers ops := by
  simp [offers, h]

omit [Vacant α] in
theorem offers_concat_of_some {ops : List (Operation α)} {op : Operation α} {e : Identity × α}
    (h : op.offer? = some e) : offers (ops ++ [op]) = offers ops ++ [e] := by
  simp [offers, h]

theorem records_empty : Records [] (empty : Cache α) where
  held := fun _ => rfl
  keys := by simp [keys, empty, offers]
  hits := rfl
  misses := rfl

namespace Records

variable {ops : List (Operation α)} {c : Cache α} (h : Records ops c)
include h

/-- What a look-up finds is known from the operations. -/
theorem isSome_found? (key : Identity) : (c.found? key).isSome = isKnown ops key := by
  unfold found? isKnown
  rw [h.held]
  cases firstOffer? ops key with
  | none => rfl
  | some v => cases hv : Vacant.isVacant v <;> simp [Option.filter, hv]

theorem perform {op : Operation α} (hop : op.isClear = false) :
    Records (ops ++ [op]) (c.perform op) where
  held := by
    intro key
    cases hoffer : op.offer? with
    | none =>
      rw [held?_congr (entries_perform_of_none hop hoffer), h.held]
      unfold firstOffer?
      rw [offers_concat_of_none hoffer]
    | some e =>
      have hnew : firstOffer? [op] key = if key = e.1 then some e.2 else none := by
        unfold firstOffer? offers
        by_cases hkey : key = e.1
        · simp [hoffer, hkey]
        · simp [hoffer, hkey, Ne.symm hkey]
      rw [held?_congr (entries_perform_of_some hop hoffer), held?_store, h.held, h.held,
        firstOffer?_append, hnew]
      by_cases hkey : key = e.1
      · subst hkey
        cases firstOffer? ops e.1 <;> simp
      · simp [hkey]
  keys := by
    cases hoffer : op.offer? with
    | none =>
      rw [keys_congr (entries_perform_of_none hop hoffer), h.keys, offers_concat_of_none hoffer]
    | some e =>
      -- A key is listed when it is offered something for the first time.
      have hlisted : c.held? e.1 = none ↔ e.1 ∉ (offers ops).map (·.1) := by
        rw [h.held, ← firstOffer?_ne_none_iff, not_not]
      rw [keys_congr (entries_perform_of_some hop hoffer), keys_store, h.keys,
        offers_concat_of_some hoffer, List.map_append, List.map_singleton, eraseDups_concat]
      by_cases hmem : e.1 ∈ (offers ops).map (·.1)
      · rw [if_pos hmem, if_neg (fun hnone => hlisted.1 hnone hmem)]
      · rw [if_neg hmem, if_pos (hlisted.2 hmem)]
  hits := by
    rw [hits_perform hop, h.hits, tally_concat, List.nil_append]
    unfold finds
    simp only [h.isSome_found?]
  misses := by
    rw [misses_perform hop, h.misses, tally_concat, List.nil_append]
    unfold computes
    simp only [h.isSome_found?]

end Records

/-- A cache records the operations since it was cleared last. -/
theorem records_after (ops : List (Operation α)) : Records (recent ops) (after ops) := by
  induction ops using List.reverseRecOn with
  | nil => exact records_empty
  | append_singleton ops op ih =>
    have hlast : after (ops ++ [op]) = (after ops).perform op := by simp [after]
    rw [recent_concat, hlast]
    cases hop : op.isClear with
    | true =>
      obtain rfl : op = .clear := by cases op <;> simp_all [Operation.isClear]
      exact records_empty
    | false => exact ih.perform hop

/-! ## §3. Answers -/

/-- What a cache answers about a key. -/
structure Answers (c : Cache α) (key : Identity) : Prop where
  get : ∀ v, (c.get key).1 = some v ↔ c.held? key = some v ∧ Vacant.isVacant v = false
  store : ∀ value, (c.store key value).2.held? key = some (c.store key value).1
  /-- It computes unless something is held that is not vacant, -/
  ran : ∀ compute, (c.getOrCompute key compute).1.2 = true ↔
    ∀ v, c.held? key = some v → Vacant.isVacant v = true
  /-- and it does not look at the computation otherwise. -/
  idle : ∀ compute, (c.getOrCompute key compute).1.2 = false →
    ∀ compute', c.getOrCompute key compute' = c.getOrCompute key compute
  given : ∀ compute,
    (c.getOrCompute key compute).2.held? key = some (c.getOrCompute key compute).1.1
  kept : ∀ compute v, c.held? key = some v → (c.getOrCompute key compute).1.1 = v

theorem get_fst (c : Cache α) (key : Identity) : (c.get key).1 = c.found? key := by
  unfold get
  cases c.found? key <;> rfl

theorem found?_eq_none_iff {c : Cache α} {key : Identity} :
    c.found? key = none ↔ ∀ v, c.held? key = some v → Vacant.isVacant v = true := by
  simp [found?, Option.filter_eq_none_iff]

omit [Vacant α] in
theorem held?_store_self (c : Cache α) (key : Identity) (value : α) :
    (c.store key value).2.held? key = some (c.store key value).1 := by
  rw [held?_store]
  unfold store
  cases c.held? key <;> simp

omit [Vacant α] in
theorem store_of_held {c : Cache α} {key : Identity} {v : α} (h : c.held? key = some v)
    (value : α) : c.store key value = (v, c) := by
  simp [store, h]

theorem answers (c : Cache α) (key : Identity) : Answers c key where
  get := by
    intro v
    rw [get_fst]
    exact found?_eq_some_iff
  store := held?_store_self c key
  ran := by
    intro compute
    rw [← found?_eq_none_iff]
    cases hfound : c.found? key with
    | none => simp [getOrCompute_of_not_found hfound]
    | some v => simp [getOrCompute_of_found hfound]
  idle := by
    intro compute hidle compute'
    cases hfound : c.found? key with
    | none => simp [getOrCompute_of_not_found hfound] at hidle
    | some v => rw [getOrCompute_of_found hfound, getOrCompute_of_found hfound]
  given := by
    intro compute
    cases hfound : c.found? key with
    | none =>
      rw [getOrCompute_of_not_found hfound]
      exact held?_store_self c.miss key (compute ())
    | some v =>
      rw [getOrCompute_of_found hfound, get_snd]
      exact (found?_eq_some_iff.1 hfound).1
  kept := by
    intro compute v hheld
    cases hfound : c.found? key with
    | none =>
      -- A vacant value is held, and the computed one is stored behind it in vain.
      have hmiss : c.miss.held? key = some v := by rw [held?_miss, hheld]
      rw [getOrCompute_of_not_found hfound, store_of_held hmiss]
    | some v' =>
      have hv' : c.held? key = some v' := (found?_eq_some_iff.1 hfound).1
      rw [getOrCompute_of_found hfound]
      exact Option.some.inj (hv'.symm.trans hheld)

/-! ## §4. Any history -/

/-- Once a key is present, no operation but clearing changes its value. -/
theorem held?_after_append {ops more : List (Operation α)} (hmore : ∀ op ∈ more, op.isClear = false)
    {key : Identity} {v : α} (h : (after ops).held? key = some v) :
    (after (ops ++ more)).held? key = some v := by
  have hfirst : firstOffer? (recent ops) key = some v := by
    rw [← (records_after ops).held, h]
  rw [(records_after (ops ++ more)).held, recent_append hmore, firstOffer?_append, hfirst]
  rfl

/-- After any operations on a new cache:
    - what it holds, the order of its keys and its counts are those that the operations since the
      last clearing account for;
    - what it holds for a key stays until it is cleared;
    - it answers with what it holds. -/
theorem bookkeeping_exact (ops : List (Operation α)) :
    Records (recent ops) (after ops) ∧
    (∀ more key v, (∀ op ∈ more, op.isClear = false) → (after ops).held? key = some v →
      (after (ops ++ more)).held? key = some v) ∧
    ∀ key, Answers (after ops) key := by
  apply And.intro (records_after ops)
  apply And.intro
  · intro more key v hmore h
    exact held?_after_append hmore h
  · intro key
    exact answers (after ops) key

/-- A stored null is computed for again, and given back all the same. -/
example : ((after [.store "k" Value.null]).getOrCompute "k" fun _ => .int 1).1
    = (Value.null, true) := by
  rfl

end Cache

/-- Without other workers between its requests, naming a type computes its name at most once. -/
theorem resolve_run (g : Graph) (d : Descriptor) (s : Session) :
    (resolve g d).run s =
      ((s.names.getOrCompute d.identity fun _ => g.qualifiedName d).1.1,
        { s with names := (s.names.getOrCompute d.identity fun _ => g.qualifiedName d).2 }) := by
  have hget : (Action.request (.name (.get d.identity))).run s =
      ((s.names.get d.identity).1, { s with names := (s.names.get d.identity).2 }) := rfl
  unfold resolve Cache.getOrCompute
  rw [Action.run_bind, hget]
  rcases s.names.get d.identity with ⟨_ | name, names⟩
  · rfl
  · rfl

end EmmyStubs
