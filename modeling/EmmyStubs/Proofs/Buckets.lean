import Mathlib.Data.List.Induction
import Mathlib.Data.List.Perm.Basic
import EmmyStubs.Members.Methods

/-! # Lists by key

    Of several items with one key, a class shows the first one only, or all of them as one
    group.

    * **`firsts`**: the first item of every key.
    * **`buckets`**: the items of every key, keys in the order in which they first occur.  Laid
      behind one another they are all items again (`flatten_buckets_perm`).
    * **`groups_eq_buckets`**: methods are grouped into the buckets of their group keys.
-/

namespace EmmyStubs

variable {α κ : Type} [BEq κ]

/-! ## §1. Distinct keys -/

/-- The first item takes all other items of its key with it. -/
@[elab_as_elim]
theorem key_induction (key : α → κ) {motive : List α → Prop} (nil : motive [])
    (cons : ∀ a l, motive (l.filter fun b => !key b == key a) → motive (a :: l)) :
    ∀ l, motive l
  | [] => nil
  | a :: l => cons a l (key_induction key nil cons (l.filter fun b => !key b == key a))
termination_by l => l.length
decreasing_by exact Nat.lt_succ_of_le (List.length_filter_le _ _)

/-- The keys without the one of an item are the keys of the items without it. -/
theorem filter_map_key (key : α → κ) (k : κ) (l : List α) :
    (l.map key).filter (fun b => !b == k) = (l.filter fun a => !key a == k).map key := by
  rw [List.filter_map]
  rfl

section

variable [LawfulBEq κ]

theorem nodup_eraseDups (l : List κ) : l.eraseDups.Nodup := by
  induction l using key_induction (fun k : κ => k) with
  | nil => simp
  | cons k l ih =>
    rw [List.eraseDups_cons, List.nodup_cons]
    exact ⟨by simp [List.mem_eraseDups], ih⟩

/-- One more key goes last, unless it is there. -/
theorem eraseDups_concat (l : List κ) (k : κ) :
    (l ++ [k]).eraseDups = if k ∈ l then l.eraseDups else l.eraseDups ++ [k] := by
  rw [List.eraseDups_append]
  by_cases h : k ∈ l
  · simp [List.removeAll, h]
  · simp [List.removeAll, h, List.eraseDups_cons]

end

/-! ## §2. First items -/

/-- The first item of every key, in order. -/
def firsts (key : α → κ) (l : List α) : List α :=
  l.eraseDupsBy fun a b => key a == key b

theorem firsts_nil (key : α → κ) : firsts key [] = [] :=
  List.eraseDupsBy_nil

theorem firsts_cons (key : α → κ) (a : α) (l : List α) :
    firsts key (a :: l) = a :: firsts key (l.filter fun b => !key b == key a) := by
  unfold firsts
  rw [List.eraseDupsBy_cons]
  congr 3
  funext b
  cases key b == key a <;> rfl

/-- The first items have the distinct keys. -/
theorem map_firsts (key : α → κ) (l : List α) :
    (firsts key l).map key = (l.map key).eraseDups := by
  induction l using key_induction key with
  | nil => simp [firsts_nil]
  | cons a l ih =>
    rw [firsts_cons, List.map_cons, List.map_cons, List.eraseDups_cons, filter_map_key, ih]

/-- What the keys are told from may come first. -/
theorem firsts_map {β : Type} (f : β → α) (key : α → κ) (l : List β) :
    firsts key (l.map f) = (firsts (fun b => key (f b)) l).map f := by
  induction l using key_induction (fun b => key (f b)) with
  | nil => simp [firsts_nil]
  | cons b l ih =>
    rw [List.map_cons, firsts_cons, firsts_cons, List.map_cons, List.filter_map]
    exact congrArg (f b :: ·) ih

/-- The first item of a key is the one that a search for the key finds. -/
theorem filter_firsts [LawfulBEq κ] (key : α → κ) (k : κ) (l : List α) :
    (firsts key l).filter (key · == k) = (l.find? (key · == k)).toList := by
  induction l using key_induction key with
  | nil => simp [firsts_nil]
  | cons a l ih =>
    rw [firsts_cons, List.filter_cons, List.find?_cons, ih, List.find?_filter]
    by_cases hk : key a = k
    · -- The other items of the key are gone.
      subst hk
      simp
    · have hkeep : ∀ b, (!key b == key a && key b == k) = (key b == k) := by
        intro b
        by_cases hb : key b = k
        · simp [hb, Ne.symm hk]
        · simp [hb]
      have hk' : (key a == k) = false := by simpa using hk
      simp [hk', hkeep]

/-! ## §3. Buckets -/

/-- The items of every key, the keys in the order in which they first occur. -/
def buckets (key : α → κ) (l : List α) : List (κ × List α) :=
  (l.map key).eraseDups.map fun k => (k, l.filter (key · == k))

theorem map_fst_buckets (key : α → κ) (l : List α) :
    (buckets key l).map (·.1) = (l.map key).eraseDups := by
  simp [buckets, Function.comp_def]

theorem filter_of_mem_buckets {key : α → κ} {l : List α} {b : κ × List α}
    (h : b ∈ buckets key l) : b.2 = l.filter (key · == b.1) := by
  obtain ⟨k, -, rfl⟩ := List.mem_map.1 h
  rfl

/-- A key has a bucket because some item has the key. -/
theorem ne_nil_of_mem_buckets [LawfulBEq κ] {key : α → κ} {l : List α} {b : κ × List α}
    (h : b ∈ buckets key l) : b.2 ≠ [] := by
  obtain ⟨k, hk, rfl⟩ := List.mem_map.1 h
  obtain ⟨a, ha, hak⟩ := List.mem_map.1 (List.mem_eraseDups.1 hk)
  have hmem : a ∈ l.filter (key · == k) := List.mem_filter.2 ⟨ha, by simp [hak]⟩
  exact List.ne_nil_of_mem hmem

/-- The buckets of one more item in front. -/
theorem buckets_cons [LawfulBEq κ] (key : α → κ) (a : α) (l : List α) :
    buckets key (a :: l) = (key a, a :: l.filter (key · == key a))
      :: buckets key (l.filter fun b => !key b == key a) := by
  unfold buckets
  rw [List.map_cons, List.eraseDups_cons, List.map_cons, filter_map_key]
  congr 1
  · simp
  · refine List.map_congr_left fun k hk => ?_
    -- No other bucket has the new item, or one that was left out with it.
    have hne : k ≠ key a := by
      rw [List.mem_eraseDups, List.mem_map] at hk
      obtain ⟨b, hb, rfl⟩ := hk
      simpa using (List.mem_filter.1 hb).2
    rw [List.filter_filter, List.filter_cons_of_neg (by simpa using Ne.symm hne)]
    congr 1
    refine List.filter_congr fun b _ => ?_
    by_cases hb : key b = k
    · simp [hb, hne]
    · simp [hb]

/-- One more item behind the others joins the bucket of its key; a new key goes last. -/
theorem buckets_concat [LawfulBEq κ] [DecidableEq κ] (key : α → κ) (l : List α) (a : α) :
    buckets key (l ++ [a])
      = ((l.map key).eraseDups.map fun k =>
          (k, if k = key a then l.filter (key · == k) ++ [a] else l.filter (key · == k)))
        ++ if key a ∈ (l.map key).eraseDups then [] else [(key a, [a])] := by
  have hold : ∀ k, (l ++ [a]).filter (key · == k)
      = if k = key a then l.filter (key · == k) ++ [a] else l.filter (key · == k) := by
    intro k
    by_cases hk : k = key a
    · simp [List.filter_append, hk]
    · simp [List.filter_append, hk, Ne.symm hk]
  unfold buckets
  rw [List.map_append, List.map_singleton, eraseDups_concat]
  by_cases hmem : key a ∈ l.map key
  · simp [List.mem_eraseDups, hmem, hold]
  · -- No item before has the key of a new bucket.
    have hnew : l.filter (key · == key a) = [] :=
      List.filter_eq_nil_iff.2 fun b hb heq => hmem (List.mem_map.2 ⟨b, hb, by simpa using heq⟩)
    simp [List.mem_eraseDups, hmem, hold, hnew]

/-- Where all keys differ, every item has a bucket of its own. -/
theorem buckets_of_nodup [LawfulBEq κ] {key : α → κ} {l : List α} (h : (l.map key).Nodup) :
    buckets key l = l.map fun a => (key a, [a]) := by
  induction l with
  | nil => rfl
  | cons a l ih =>
    obtain ⟨ha, hl⟩ := List.nodup_cons.1 h
    have hne : ∀ b ∈ l, key b ≠ key a := fun b hb heq => ha (heq ▸ List.mem_map_of_mem hb)
    have hnone : l.filter (key · == key a) = [] :=
      List.filter_eq_nil_iff.2 fun b hb => by simpa using hne b hb
    have hall : l.filter (fun b => !key b == key a) = l :=
      List.filter_eq_self.2 fun b hb => by simpa using hne b hb
    rw [buckets_cons, hnone, hall, ih hl, List.map_cons]

/-- No item is lost or put into two buckets. -/
theorem flatten_buckets_perm [LawfulBEq κ] (key : α → κ) (l : List α) :
    ((buckets key l).flatMap (·.2)).Perm l := by
  induction l using key_induction key with
  | nil => simp [buckets]
  | cons a l ih =>
    rw [buckets_cons, List.flatMap_cons, List.cons_append]
    refine .cons a ((ih.append_left _).trans ?_)
    exact List.filter_append_perm _ l

/-! ## §4. Method groups -/

namespace Members

/-- A method joins the bucket of its key; a new key goes last. -/
theorem insertMethod_map (key : GroupKey) (m : Descriptor.Method)
    (f : GroupKey → List Descriptor.Method) {ks : List GroupKey} (hks : ks.Nodup) :
    insertMethod key m (ks.map fun k => (k, f k))
      = (ks.map fun k => (k, if k = key then f k ++ [m] else f k))
        ++ (if key ∈ ks then [] else [(key, [m])]) := by
  induction ks with
  | nil => simp [insertMethod]
  | cons k ks ih =>
    obtain ⟨hk, hks⟩ := List.nodup_cons.1 hks
    rw [List.map_cons, insertMethod]
    by_cases heq : k = key
    · -- The key occurs once, so the later buckets stay as they are.
      subst heq
      have hrest : ∀ k' ∈ ks, (k', f k') = (k', if k' = k then f k' ++ [m] else f k') := by
        intro k' hk'
        rw [if_neg fun h : k' = k => hk (h ▸ hk')]
      simp [List.map_congr_left hrest]
    · rw [if_neg heq, ih hks]
      simp [heq, Ne.symm heq]

/-- Methods are grouped into the buckets of their keys. -/
theorem groups_eq_buckets (g : Graph) (ms : List Descriptor.Method) :
    groups g ms = buckets (groupKey g) ms := by
  induction ms using List.reverseRecOn with
  | nil => rfl
  | append_singleton ms m ih =>
    have hstep : groups g (ms ++ [m]) = insertMethod (groupKey g m) m (groups g ms) := by
      simp [groups, List.foldl_append]
    rw [hstep, ih, buckets_concat]
    exact insertMethod_map _ _ _ (nodup_eraseDups _)

/-- Grouping makes up no methods. -/
theorem mem_of_mem_groups {g : Graph} {ms : List Descriptor.Method} {m : Descriptor.Method}
    (h : ∃ e ∈ groups g ms, m ∈ e.2) : m ∈ ms := by
  obtain ⟨e, he, hm⟩ := h
  rw [groups_eq_buckets] at he
  rw [filter_of_mem_buckets he] at hm
  exact (List.mem_filter.1 hm).1

end Members

end EmmyStubs
