import Fleetboot.Library.Text

/-!
# Words

Text that is joined with separators and split again: `str.join`, `str.split()` and `str.split(c)`
over lists of characters.

* `pieces_stripChars`: stripping takes no word away.
* `pieces_intercalate`: the pieces of a joined text are the pieces of its words.
* `splitOn_join`: words without the separator come back.
-/

set_option autoImplicit false

namespace Python

/-- Dropping from the end stops at the last part, if that ends with something else. -/
theorem rdropWhile_append_of_last {p : Char → Bool} {cs : List Char}
    (h : ∀ c ∈ cs.getLast?, p c = false) (ds : List Char) :
    (cs ++ ds).rdropWhile p = cs ++ ds.rdropWhile p := by
  induction ds using List.reverseRecOn with
  | nil =>
    rw [List.append_nil, List.rdropWhile_nil, List.append_nil, List.rdropWhile_eq_self_iff]
    intro hne
    rw [h _ (List.getLast?_eq_some_getLast hne)]
    exact Bool.false_ne_true
  | append_singleton ds d ih =>
    rw [← List.append_assoc]
    cases hd : p d with
    | false =>
      rw [List.rdropWhile_concat_neg _ _ _ (by simp [hd]),
        List.rdropWhile_concat_neg _ _ _ (by simp [hd]), List.append_assoc]
    | true =>
      rw [List.rdropWhile_concat_pos _ _ _ hd, List.rdropWhile_concat_pos _ _ _ hd, ih]

/-- White space around a text is stripped with the rest. -/
theorem stripChars_pad {front back : List Char} (hfront : ∀ c ∈ front, isSpace c = true)
    (hback : ∀ c ∈ back, isSpace c = true) (cs : List Char) :
    stripChars (front ++ (cs ++ back)) = stripChars cs := by
  have hend : ∀ ds : List Char, (ds ++ back).rdropWhile isSpace = ds.rdropWhile isSpace := by
    intro ds
    unfold List.rdropWhile
    rw [List.reverse_append, List.dropWhile_append_of_pos fun c hc =>
      hback c (List.mem_reverse.mp hc)]
  unfold stripChars
  rw [List.dropWhile_append_of_pos hfront, List.dropWhile_append]
  split
  · rename_i hempty
    rw [List.isEmpty_iff.mp hempty, (List.dropWhile_eq_nil_iff).mpr hback]
  · exact hend _

section Strip

variable {cs ds : List Char}

theorem head_of_stripped (h : stripChars cs = cs) : ∀ c ∈ cs.head?, isSpace c = false :=
  h ▸ head_stripChars cs

theorem last_of_stripped (h : stripChars cs = cs) : ∀ c ∈ cs.getLast?, isSpace c = false := by
  intro c hc
  have hne : cs ≠ [] := by
    rintro rfl
    cases hc
  have hself : cs.rdropWhile isSpace = cs := by
    have hdrop : cs.dropWhile isSpace = cs := dropWhile_eq_self_of_head (head_of_stripped h)
    rwa [stripChars, hdrop] at h
  have hlast := List.rdropWhile_eq_self_iff.mp hself hne
  rw [List.getLast?_eq_some_getLast hne] at hc
  cases hc
  simpa using hlast

/-- A text without space at its ends is stripped. -/
theorem stripChars_eq_self (hhead : ∀ c ∈ cs.head?, isSpace c = false)
    (hlast : ∀ c ∈ cs.getLast?, isSpace c = false) : stripChars cs = cs := by
  rw [stripChars, dropWhile_eq_self_of_head hhead, List.rdropWhile_eq_self_iff]
  intro hne
  rw [hlast _ (List.getLast?_eq_some_getLast hne)]
  exact Bool.false_ne_true

/-- The space around a text, and the text stripped. -/
theorem exists_strip (cs : List Char) : ∃ front back, cs = front ++ (stripChars cs ++ back) ∧
    (∀ c ∈ front, isSpace c = true) ∧ ∀ c ∈ back, isSpace c = true := by
  refine ⟨cs.takeWhile isSpace, (cs.dropWhile isSpace).rtakeWhile isSpace, ?_, ?_, ?_⟩
  · rw [stripChars, List.rdropWhile_append_rtakeWhile, List.takeWhile_append_dropWhile]
  · exact fun c hc => List.mem_takeWhile_imp hc
  · exact fun c hc => List.mem_rtakeWhile_imp hc

end Strip

/-- What is put behind a joined text belongs to its last word. -/
theorem intercalate_concat (sep tail last : String) (words : List String) :
    sep.intercalate (words ++ [last]) ++ tail = sep.intercalate (words ++ [last ++ tail]) := by
  cases words with
  | nil => rw [List.nil_append, List.nil_append, String.intercalate_singleton,
      String.intercalate_singleton]
  | cons word words =>
    have hwords : word :: words ≠ [] := List.cons_ne_nil word words
    rw [String.intercalate_append_of_ne_nil hwords (by simp),
      String.intercalate_append_of_ne_nil hwords (by simp), String.intercalate_singleton,
      String.intercalate_singleton, String.append_assoc]

/-- A text that was joined with single characters, split at them. -/
theorem splitOn_join {sep : Char} {words : List String} (hne : words ≠ [])
    (hwords : ∀ word ∈ words, sep ∉ word.toList) :
    ((String.singleton sep).intercalate words).toList.splitOn sep = words.map String.toList := by
  rw [String.toList_intercalate, String.toList_singleton]
  refine List.splitOn_intercalate sep (fun cs hcs => ?_) (by simpa using hne)
  obtain ⟨word, hword, rfl⟩ := List.mem_map.mp hcs
  exact hwords word hword

/-- A piece holds nothing that it was split at. -/
theorem not_of_mem_splitOnP {α : Type} {p : α → Bool} {xs piece : List α}
    (h : piece ∈ xs.splitOnP p) : ∀ x ∈ piece, p x = false := by
  induction xs generalizing piece with
  | nil =>
    rw [List.splitOnP_nil, List.mem_singleton] at h
    simp [h]
  | cons x xs ih =>
    rw [List.splitOnP_cons_eq_if_modifyHead] at h
    split at h
    · rcases List.mem_cons.mp h with rfl | hmem
      · simp
      · exact ih hmem
    · rename_i hx
      cases hrest : xs.splitOnP p with
      | nil => exact absurd hrest (List.splitOnP_ne_nil p xs)
      | cons first rest =>
        rw [hrest, List.modifyHead_cons] at h
        rcases List.mem_cons.mp h with rfl | hmem
        · intro y hy
          rcases List.mem_cons.mp hy with rfl | hy
          · exact Bool.eq_false_iff.mpr hx
          · exact ih (hrest ▸ List.mem_cons_self ..) y hy
        · exact ih (hrest ▸ List.mem_cons_of_mem _ hmem)

theorem splitOnP_map {α β : Type} (f : α → β) (p : β → Bool) (xs : List α) :
    (xs.map f).splitOnP p = (xs.splitOnP (p ∘ f)).map (List.map f) := by
  induction xs with
  | nil => rfl
  | cons x xs ih =>
    rw [List.map_cons, List.splitOnP_cons_eq_if_modifyHead, List.splitOnP_cons_eq_if_modifyHead,
      ih]
    change (if p (f x) = true then _ else _) = List.map _ (if p (f x) = true then _ else _)
    split
    · rfl
    · cases xs.splitOnP (p ∘ f) <;> rfl

/-- What a joined text holds is the separator or stands in a part. -/
theorem mem_join {α : Type} {sep x : α} {parts : List (List α)}
    (h : x ∈ [sep].intercalate parts) : x = sep ∨ ∃ part ∈ parts, x ∈ part := by
  induction parts with
  | nil => cases h
  | cons part parts ih =>
    cases parts with
    | nil => exact .inr ⟨part, List.mem_cons_self .., by simpa using h⟩
    | cons next rest =>
      rw [List.intercalate_cons_cons, List.append_assoc, List.mem_append, List.mem_append] at h
      rcases h with hpart | hsep | hrest
      · exact .inr ⟨part, List.mem_cons_self .., hpart⟩
      · exact .inl (List.mem_singleton.mp hsep)
      · exact (ih hrest).imp_right fun ⟨p, hp, hx⟩ => ⟨p, List.mem_cons_of_mem _ hp, hx⟩

/-- What stands in a part stands in the joined text. -/
theorem mem_join_of_mem {α : Type} {sep x : α} {part : List α} {parts : List (List α)}
    (hpart : part ∈ parts) (hx : x ∈ part) : x ∈ [sep].intercalate parts := by
  induction parts with
  | nil => cases hpart
  | cons first parts ih =>
    cases parts with
    | nil =>
      rw [List.intercalate_singleton, ← List.mem_singleton.mp hpart]
      exact hx
    | cons next rest =>
      rw [List.intercalate_cons_cons, List.append_assoc, List.mem_append, List.mem_append]
      rcases List.mem_cons.mp hpart with rfl | hrest
      · exact .inl hx
      · exact .inr (.inr (ih hrest))

section Pieces

variable {p : Char → Bool} {cs ds piece : List Char} {sep : Char}

theorem pieces_append_cons (cs ds : List Char) (hsep : p sep = true) :
    pieces p (cs ++ sep :: ds) = pieces p cs ++ pieces p ds := by
  unfold pieces
  rw [List.splitOnP_append_cons cs ds hsep, List.filter_append]

theorem pieces_dropWhile (p : Char → Bool) (cs : List Char) :
    pieces p (cs.dropWhile p) = pieces p cs := by
  induction cs with
  | nil => rfl
  | cons c cs ih =>
    cases hc : p c with
    | false => rw [List.dropWhile_cons_of_neg (by simp [hc])]
    | true =>
      rw [List.dropWhile_cons_of_pos hc, ih]
      exact (pieces_append_cons [] cs hc).symm

theorem pieces_rdropWhile (p : Char → Bool) (cs : List Char) :
    pieces p (cs.rdropWhile p) = pieces p cs := by
  induction cs using List.reverseRecOn with
  | nil => rfl
  | append_singleton cs c ih =>
    cases hc : p c with
    | false => rw [List.rdropWhile_concat_neg _ _ _ (by simp [hc])]
    | true =>
      rw [List.rdropWhile_concat_pos _ _ _ hc, ih, pieces_append_cons cs [] hc]
      exact (List.append_nil _).symm

/-- Stripping takes no word away. -/
theorem pieces_stripChars (cs : List Char) :
    pieces isSpace (stripChars cs) = pieces isSpace cs := by
  unfold stripChars
  rw [pieces_rdropWhile, pieces_dropWhile]

/-- A word. -/
theorem pieces_of_clean (hne : cs ≠ []) (hcs : ∀ c ∈ cs, p c = false) : pieces p cs = [cs] := by
  unfold pieces
  rw [List.splitOnP_eq_singleton hcs]
  simpa using hne

theorem pieces_intercalate (hsep : p sep = true) (words : List (List Char)) :
    pieces p ([sep].intercalate words) = words.flatMap (pieces p) := by
  induction words with
  | nil => rfl
  | cons word words ih =>
    cases words with
    | nil => simp
    | cons next rest =>
      rw [List.intercalate_cons_cons, List.append_assoc, List.singleton_append,
        pieces_append_cons _ _ hsep, ih]
      rfl

theorem subset_of_mem_splitOnP (h : piece ∈ ds.splitOnP p) : piece ⊆ ds := by
  induction ds generalizing piece with
  | nil =>
    rw [List.splitOnP_nil, List.mem_singleton] at h
    rw [h]
    exact List.nil_subset []
  | cons d ds ih =>
    rw [List.splitOnP_cons_eq_if_modifyHead] at h
    have hrest : ∀ piece ∈ ds.splitOnP p, piece ⊆ d :: ds := fun piece hpiece =>
      List.Subset.trans (ih hpiece) (List.subset_cons_self d ds)
    split at h
    · rcases List.mem_cons.mp h with rfl | hmem
      · exact List.nil_subset _
      · exact hrest piece hmem
    · cases hsplit : ds.splitOnP p with
      | nil => exact absurd hsplit (List.splitOnP_ne_nil p ds)
      | cons first rest =>
        rw [hsplit, List.modifyHead_cons] at h
        rcases List.mem_cons.mp h with rfl | hmem
        · exact List.cons_subset_cons d (ih (hsplit ▸ List.mem_cons_self ..))
        · exact hrest piece (hsplit ▸ List.mem_cons_of_mem _ hmem)

/-- The pieces of a text with a word in front: one begins with it, the others lie behind it. -/
theorem mem_pieces_append (hcs : ∀ c ∈ cs, p c = false) (h : piece ∈ pieces p (cs ++ ds)) :
    cs <+: piece ∨ piece ⊆ ds := by
  have hsplit : ∀ cs : List Char, (∀ c ∈ cs, p c = false) →
      (cs ++ ds).splitOnP p = (ds.splitOnP p).modifyHead (cs ++ ·) := by
    intro cs hcs
    induction cs with
    | nil => cases hds : ds.splitOnP p <;> simp [hds]
    | cons c cs ih =>
      rw [List.cons_append, List.splitOnP_cons_eq_if_modifyHead, if_neg (by simp [hcs]),
        ih fun d hd => hcs d (List.mem_cons_of_mem _ hd)]
      cases ds.splitOnP p <;> rfl
  unfold pieces at h
  obtain ⟨hmem, -⟩ := List.mem_filter.mp h
  rw [hsplit cs hcs] at hmem
  cases hds : ds.splitOnP p with
  | nil => exact absurd hds (List.splitOnP_ne_nil p ds)
  | cons first rest =>
    rw [hds, List.modifyHead_cons] at hmem
    rcases List.mem_cons.mp hmem with rfl | hrest
    · exact .inl (List.prefix_append cs first)
    · exact .inr (subset_of_mem_splitOnP (hds ▸ List.mem_cons_of_mem _ hrest))

end Pieces

end Python
