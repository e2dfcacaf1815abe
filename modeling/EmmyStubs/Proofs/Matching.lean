import EmmyStubs.Proofs.Linking
import EmmyStubs.Proofs.Resolving

/-! # Brackets that match

    The scan from the back finds the bracket that the end of a text closes, whatever stands in
    front of it, and so a reference is taken apart into shorter ones only.

    * **`trailingBracket?_eq_some_iff`**: a bracket is found at the end of a text just if one
      stands there with paired brackets in it.
    * **`IsTrailingGroup`**: the shortest end of a text in which brackets are paired.
    * **`expand_ends`**: every reference is resolved, or refused because an empty identity occurs
      in it.
    * **`trailingBracket?_matches`**: the bracket found at the end of an identity is the matching
      one, and what follows from it for the types that the identity is made of.
-/

namespace EmmyStubs.Dump

open EmmyStubs.Text

/-! ## §1. Brackets that are closed -/

/-- A text that closes some brackets which are open in front of it.  Before, between and behind
    the brackets that close them, brackets are paired. -/
inductive Closes : Nat → List Char → Prop
  | paired {s : List Char} (h : Paired true s) : Closes 0 s
  | close {depth : Nat} {s t : List Char} (hs : Paired true s) (ht : Closes depth t) :
      Closes (depth + 1) (s ++ ']' :: t)

variable {depth : Nat} {s t front inner : List Char}

/-- A paired text in front closes nothing. -/
theorem Closes.behind (hs : Paired true s) (ht : Closes depth t) : Closes depth (s ++ t) := by
  cases ht with
  | paired h => exact .paired (hs.append h)
  | close ht h =>
    rw [← List.append_assoc]
    exact .close (hs.append ht) h

/-- What the scan from the back passes, together with what closes the brackets that it began in,
    is paired. -/
theorem paired_of_untilOpening (h : untilOpening depth s = some (inner, front))
    (ht : Closes depth t) : Paired true (inner.reverse ++ t) := by
  fun_induction untilOpening depth s generalizing inner front t with
  | case1 => cases h
  | case2 cs =>
    cases h
    cases ht with
    | paired ht => exact ht
  | case3 depth cs ih =>
    -- The bracket that opens here is closed by the first one that is to be closed.
    obtain ⟨⟨i, f⟩, hr, he⟩ := Option.map_eq_some_iff.1 h
    cases he
    cases ht with
    | @close _ s t hs ht =>
      have hgroup : Paired true ('[' :: (s ++ [']'])) := hs.bracket
      have hclosed := ih hr (ht.behind hgroup)
      simpa using hclosed
  | case4 depth cs ih =>
    obtain ⟨⟨i, f⟩, hr, he⟩ := Option.map_eq_some_iff.1 h
    cases he
    have hclosed := ih hr (.close .nil ht)
    simpa using hclosed
  | case5 depth c cs hopen₀ hopen hclose ih =>
    obtain ⟨⟨i, f⟩, hr, he⟩ := Option.map_eq_some_iff.1 h
    cases he
    have hc : c ≠ '[' ∧ c ≠ ']' := by
      refine ⟨?_, fun heq => hclose heq⟩
      rintro rfl
      cases depth with
      | zero => exact hopen₀ rfl rfl
      | succ depth => exact hopen depth rfl rfl
    have hchar : Paired true [c] := .char hc.1 hc.2 (fun _ => rfl) .nil
    have hclosed := ih hr (ht.behind hchar)
    simpa using hclosed

/-- The bracket that ends a text is found just if there is one, with paired brackets in it. -/
theorem trailingBracket?_eq_some_iff :
    trailingBracket? s = some (front, inner) ↔
      s = front ++ '[' :: (inner ++ [']']) ∧ Paired true inner := by
  constructor
  · intro h
    refine ⟨by simpa using eq_of_trailingBracket? h, ?_⟩
    unfold trailingBracket? at h
    split at h
    · obtain ⟨⟨i, f⟩, hr, he⟩ := Option.map_eq_some_iff.1 h
      cases he
      simpa using paired_of_untilOpening hr (.paired .nil)
    · cases h
  · rintro ⟨rfl, h⟩
    exact trailingBracket?_append front h

/-! ## §2. Groups at the end -/

/-- A paired text with a closing bracket at its end has the one that it closes in it. -/
theorem Paired.exists_group (h : Paired true s) (hlast : s.getLast? = some ']') :
    ∃ front inner, s = front ++ '[' :: (inner ++ [']']) ∧ Paired true inner := by
  generalize hcommas : true = commas at h
  induction h with
  | nil => cases hlast
  | @char commas c s hopen hclose _ h ih =>
    subst hcommas
    cases s with
    | nil => exact absurd (by simpa using hlast) hclose
    | cons d s =>
      obtain ⟨front, inner, heq, hinner⟩ := ih (by simpa using hlast) rfl
      exact ⟨c :: front, inner, by rw [heq, List.cons_append], hinner⟩
  | @group commas s t hs ht _ iht =>
    subst hcommas
    cases t with
    | nil => exact ⟨[], s, rfl, hs⟩
    | cons d t =>
      have hlast' : (d :: t).getLast? = some ']' := by
        rw [← hlast, ← List.cons_append, List.getLast?_append, List.getLast?_cons_cons,
          List.getLast?_cons]
        rfl
      obtain ⟨front, inner, heq, hinner⟩ := iht hlast' rfl
      exact ⟨'[' :: (s ++ ']' :: front), inner, by simp [heq], hinner⟩

/-- The shortest end of a text that is not empty and in which brackets are paired. -/
structure IsTrailingGroup (s group : List Char) : Prop where
  suffix : group <:+ s
  ne_nil : group ≠ []
  paired : Paired true group
  shortest : ∀ t, t <:+ s → t ≠ [] → Paired true t → group <:+ t

theorem getLast?_of_suffix (h : t <:+ s) (hne : t ≠ []) : t.getLast? = s.getLast? := by
  obtain ⟨front, rfl⟩ := h
  rw [List.getLast?_append, List.getLast?_eq_some_getLast hne]
  rfl

theorem isTrailingGroup_of_trailingBracket? (h : trailingBracket? s = some (front, inner)) :
    IsTrailingGroup s ('[' :: (inner ++ [']'])) := by
  obtain ⟨rfl, hinner⟩ := trailingBracket?_eq_some_iff.1 h
  have hgroup : '[' :: (inner ++ [']']) <:+ front ++ '[' :: (inner ++ [']']) :=
    List.suffix_append front _
  refine ⟨hgroup, List.cons_ne_nil _ _, hinner.bracket, fun t ht hne hpaired => ?_⟩
  -- Such an end ends with a closing bracket too, and the scan finds the same group in it.
  have hlast : t.getLast? = some ']' := by
    rw [getLast?_of_suffix ht hne, ← List.cons_append, ← List.append_assoc, List.getLast?_concat]
  obtain ⟨front', inner', rfl, hinner'⟩ := hpaired.exists_group hlast
  obtain ⟨before, hbefore⟩ := ht
  have hsame : trailingBracket? (front ++ '[' :: (inner ++ [']']))
      = some (before ++ front', inner') := by
    rw [trailingBracket?_eq_some_iff, List.append_assoc]
    exact ⟨hbefore.symm, hinner'⟩
  rw [h, Option.some.injEq, Prod.mk.injEq] at hsame
  rw [hsame.2]
  exact List.suffix_append front' _

theorem exists_trailingBracket?_iff :
    (∃ front inner, trailingBracket? s = some (front, inner)) ↔
      s.getLast? = some ']' ∧ ∃ t, t <:+ s ∧ t.head? = some '[' ∧ Paired true t := by
  constructor
  · rintro ⟨front, inner, h⟩
    have hgroup := isTrailingGroup_of_trailingBracket? h
    refine ⟨?_, _, hgroup.suffix, rfl, hgroup.paired⟩
    rw [← getLast?_of_suffix hgroup.suffix hgroup.ne_nil, ← List.cons_append, List.getLast?_concat]
  · rintro ⟨hlast, t, ht, hhead, hpaired⟩
    have hne : t ≠ [] := by
      rintro rfl
      cases hhead
    obtain ⟨front, inner, rfl, hinner⟩ :=
      hpaired.exists_group ((getLast?_of_suffix ht hne).trans hlast)
    obtain ⟨before, rfl⟩ := ht
    refine ⟨before ++ front, inner, trailingBracket?_eq_some_iff.2 ⟨?_, hinner⟩⟩
    rw [List.append_assoc]

/-! ## §3. References that are taken apart -/

variable {described : List Identity} {owner id : Identity}

/-- A type that is made of others that are made of others, and so on, has no more of them inside
    one another than its identity has characters. -/
theorem length_le_of_isChain {chain : List Identity}
    (h : List.IsChain (fun x y => y ∈ partsOf x) (id :: chain)) :
    chain.length ≤ id.toList.length := by
  induction chain generalizing id with
  | nil => exact Nat.zero_le _
  | cons x chain ih =>
    cases h with
    | cons_cons hx h =>
      have hshorter := length_partsOf_lt hx
      have hrest := ih h
      rw [List.length_cons]
      omega

/-- No empty identity occurs in a reference that is accepted. -/
theorem Occurs.ne_empty {u : Identity} {ds : List Descriptor} (hu : Occurs described id u)
    (h : expand described owner id = .ok ds) : u ≠ "" := by
  induction hu generalizing owner ds with
  | refl id => exact ne_empty_of_expand h
  | part hid hx _ ih =>
    obtain ⟨brought, hbrought, -⟩ := expand_parts h hid
    obtain ⟨part, -, hpart⟩ := exists_of_mapM (mapM_of_forall₂ hbrought) hx
    exact ih hpart

/-- A reference in which no empty identity occurs is accepted. -/
theorem exists_expand (h : ¬Occurs described id "") :
    ∃ ds, expand described owner id = .ok ds := by
  -- The parts of an identity are shorter than it.
  induction hlength : id.toList.length using Nat.strongRecOn generalizing owner id with
  | ind n ih =>
    have hne : id ≠ "" := by
      rintro rfl
      exact h (.refl _)
    by_cases hid : id ∈ described
    · exact ⟨[], expand_of_described hne hid⟩
    have hpart : ∀ x ∈ partsOf id, ∃ ds, expand described id x = .ok ds := by
      intro x hx
      exact ih _ (hlength ▸ length_partsOf_lt hx) (fun hempty => h (.part hid hx hempty)) rfl
    have hargument : "" ∉ (Form.ofIdentity id).arguments := by
      intro hmem
      exact h (.part hid (List.mem_append_right _ hmem) (.refl _))
    obtain ⟨frame, hframe⟩ :=
      exists_mapM_ok fun x hx => hpart x (List.mem_append_left (Form.ofIdentity id).arguments hx)
    obtain ⟨arguments, harguments⟩ :=
      exists_mapM_ok fun x hx => hpart x (List.mem_append_right (Form.ofIdentity id).frame hx)
    exact ⟨frame.flatten ++ arguments.flatten ++ [external id],
      (expand_eq_ok_iff hid).2 ⟨hne, hargument, frame, arguments, hframe, harguments, rfl⟩⟩

/-- A reference is refused for an empty identity in it. -/
theorem flaw_of_expand {e : Error} (h : expand described owner id = .error e) :
    ∃ culprit, e.owner = some culprit ∧
      (e.flaw = .emptyArgument ∨ e.flaw = .invalidReference (.str "")) := by
  induction hlength : id.toList.length using Nat.strongRecOn generalizing owner id with
  | ind n ih =>
    by_cases hne : id = ""
    · rw [expand, if_pos hne] at h
      cases h
      exact ⟨owner, rfl, .inr rfl⟩
    by_cases hid : id ∈ described
    · rw [expand_of_described hne hid] at h
      cases h
    have hpart : ∀ x ∈ partsOf id, expand described id x = .error e →
        ∃ culprit, e.owner = some culprit ∧
          (e.flaw = .emptyArgument ∨ e.flaw = .invalidReference (.str "")) :=
      fun x hx hrefused => ih _ (hlength ▸ length_partsOf_lt hx) hrefused rfl
    rw [expand_of_new hne hid] at h
    -- A part is refused, or the type itself for an argument that is empty.
    rcases except_bind_error.1 h with h | ⟨frame, -, h⟩
    · obtain ⟨x, hx, hrefused⟩ := exists_of_mapM_eq_error h
      exact hpart x (List.mem_append_left _ hx) hrefused
    by_cases hargument : "" ∈ (Form.ofIdentity id).arguments
    · rw [if_pos hargument] at h
      cases h
      exact ⟨id, rfl, .inl rfl⟩
    rw [if_neg hargument] at h
    rcases except_bind_error.1 h with h | ⟨arguments, -, h⟩
    · obtain ⟨x, hx, hrefused⟩ := exists_of_mapM_eq_error h
      exact hpart x (List.mem_append_right _ hx) hrefused
    · cases h

/-- Every reference is resolved: to a described type, or to an external one that it brings in.
    The exception is a reference in which an empty identity occurs. -/
theorem expand_ends (described : List Identity) (owner id : Identity) :
    (¬Occurs described id "" ∧ ∃ ds, expand described owner id = .ok ds ∧
      (id ∈ described ∨ external id ∈ ds)) ∨
    (Occurs described id "" ∧ ∃ culprit flaw,
      expand described owner id = .error ⟨some culprit, flaw⟩ ∧
        (flaw = .emptyArgument ∨ flaw = .invalidReference (.str ""))) := by
  by_cases hempty : Occurs described id ""
  · refine .inr ⟨hempty, ?_⟩
    cases hexpand : expand described owner id with
    | ok ds => exact absurd rfl (hempty.ne_empty hexpand)
    | error e =>
      obtain ⟨culprit, howner, hflaw⟩ := flaw_of_expand hexpand
      obtain ⟨owner', flaw⟩ := e
      cases howner
      exact ⟨culprit, flaw, rfl, hflaw⟩
  · obtain ⟨ds, hexpand⟩ : ∃ ds, expand described owner id = .ok ds := exists_expand hempty
    refine .inl ⟨hempty, ds, hexpand, ?_⟩
    by_cases hid : id ∈ described
    · exact .inl hid
    · exact .inr ((mem_expand hexpand).2 ⟨id, .refl id, hid, rfl⟩)

/-- A bracket is found at the end of a text just if a closing one stands there and brackets are
    paired in some end of the text that opens with one.  It is the shortest such end.  So what an
    identity is made of is shorter than it, however deep one goes, and every reference is resolved
    or refused. -/
theorem trailingBracket?_matches (described : List Identity) (owner id : Identity) :
    ((∃ front inner, trailingBracket? id.toList = some (front, inner)) ↔
      id.toList.getLast? = some ']' ∧
        ∃ t, t <:+ id.toList ∧ t.head? = some '[' ∧ Paired true t) ∧
    (∀ front inner, trailingBracket? id.toList = some (front, inner) →
      id.toList = front ++ '[' :: (inner ++ [']']) ∧ Paired true inner ∧
        IsTrailingGroup id.toList ('[' :: (inner ++ [']']))) ∧
    (∀ x ∈ partsOf id, x.toList.length < id.toList.length) ∧
    (∀ chain, List.IsChain (fun x y => y ∈ partsOf x) (id :: chain) →
      chain.length ≤ id.toList.length) ∧
    ((¬Occurs described id "" ∧ ∃ ds, expand described owner id = .ok ds ∧
        (id ∈ described ∨ external id ∈ ds)) ∨
      (Occurs described id "" ∧ ∃ culprit flaw,
        expand described owner id = .error ⟨some culprit, flaw⟩ ∧
          (flaw = .emptyArgument ∨ flaw = .invalidReference (.str "")))) := by
  refine ⟨exists_trailingBracket?_iff, ?_, ?_, ?_, expand_ends described owner id⟩
  · intro front inner h
    obtain ⟨heq, hinner⟩ := trailingBracket?_eq_some_iff.1 h
    exact ⟨heq, hinner, isTrailingGroup_of_trailingBracket? h⟩
  · intro x hx
    exact length_partsOf_lt hx
  · intro chain h
    exact length_le_of_isChain h

-- A closing bracket too many in front of the last group does not hide it.
example : trailingBracket? "A[]][,[*]]".toList = some ("A[]]".toList, ",[*]".toList) := by
  decide

end EmmyStubs.Dump
