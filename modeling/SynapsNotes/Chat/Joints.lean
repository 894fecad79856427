import SynapsNotes.Chat.Sanitized

/-!
# What is shown of two parts of an answer

An answer is cut in two, and what is shown of the parts is put together. It is
what is shown of the whole exactly if nothing that is taken out lies across the
joint (`visibleContent_append_iff`): no block (`BlockAcross`), no control token,
no white space.
-/

namespace SynapsNotes.Chat

open Framework Text Computability

/-! ## Blocks across the joint -/

/-- A block of the whole begins in `a` and ends in `b`. -/
def BlockAcross (a b : Text) : Prop :=
  ∃ x u v y thought, a = x ++ u ∧ b = v ++ y ∧ u ≠ [] ∧ v ≠ [] ∧ u ++ v = openTag ++ (thought ++ closeTag) ∧
    ¬ closeTag <:+: thought ∧ (outside x).2 = Option.none

section Outside

variable {a b x y t thought : Text}

theorem openTag_marked : Marked '<' openTag := by decide

/-- A text that ends outside of its blocks is passed over on its own, unless an
opening tag goes on behind it. -/
theorem outside_append (hx : (outside x).2 = Option.none) (h : ¬ Splits openTag x y) :
    outside (x ++ y) = ((outside x).1 ++ (outside y).1, (outside y).2) := by
  induction x using outside.induct with
  | case1 x hnone =>
    have hx' : ¬ openTag <:+: x := (splitFirst_eq_none_iff (by decide)).mp hnone
    rw [outside_of_no_block hnone]
    cases hy : splitFirst openTag y with
    | none =>
      have hy' : ¬ openTag <:+: y := (splitFirst_eq_none_iff (by decide)).mp hy
      have hxy : splitFirst openTag (x ++ y) = Option.none := (splitFirst_eq_none_iff (by decide)).mpr fun hi =>
        (infix_append_iff_splits.mp hi).elim hx' fun h' => h'.elim hy' h
      rw [outside_of_no_block hxy, outside_of_no_block hy]
    | some p =>
      obtain ⟨before, rest⟩ := p
      have heq := eq_of_splitFirst hy
      have hbefore : ¬ openTag <:+: x ++ before := fun hi =>
        (infix_append_iff_splits.mp hi).elim hx' fun h' => h'.elim (not_infix_of_splitFirst (by decide) hy) fun h' =>
          h (h'.mono List.suffix_rfl ⟨openTag ++ rest, by rw [heq, List.append_assoc]⟩)
      have hxy : splitFirst openTag (x ++ y) = some (x ++ before, rest) := by
        rw [heq, ← splitFirst_of_absent openTag_marked hbefore rest]
        simp only [List.append_assoc]
      cases hrest : splitFirst closeTag rest with
      | none => rw [outside_of_open hxy hrest, outside_of_open hy hrest]
      | some q => rw [outside_of_closed hxy hrest, outside_of_closed hy hrest, List.append_assoc]
  | case2 x before rest hopen hrest =>
    rw [outside_of_open hopen hrest] at hx
    cases hx
  | case3 x before rest hopen thought after hrest ih =>
    rw [outside_of_closed hopen hrest] at hx
    have hsuffix : after <:+ x := by
      rw [eq_of_splitFirst hopen, eq_of_splitFirst hrest]
      exact (List.suffix_append _ after).trans (List.suffix_append _ _)
    rw [outside_of_closed (splitFirst_append openTag_marked hopen y) (splitFirst_append closeTag_marked hrest y),
      ih hx fun h' => h (h'.mono hsuffix List.prefix_rfl), outside_of_closed hopen hrest, List.append_assoc]

/-- Where a text breaks off inside a block, the block stands behind a text that
ends outside of its blocks. -/
theorem exists_open_block (h : (outside t).2 = some thought) : ∃ x, t = x ++ (openTag ++ thought) ∧
    (outside x).2 = Option.none ∧ ¬ closeTag <:+: thought := by
  induction t using outside.induct with
  | case1 t hnone =>
    rw [outside_of_no_block hnone] at h
    cases h
  | case2 t before rest hopen hrest =>
    rw [outside_of_open hopen hrest, Option.some.injEq] at h
    subst h
    have hbefore : splitFirst openTag before = Option.none :=
      (splitFirst_eq_none_iff (by decide)).mpr (not_infix_of_splitFirst (by decide) hopen)
    refine ⟨before, ?_, by rw [outside_of_no_block hbefore], (splitFirst_eq_none_iff (by decide)).mp hrest⟩
    rw [eq_of_splitFirst hopen, List.append_assoc]
  | case3 t before rest hopen thought' after hrest ih =>
    rw [outside_of_closed hopen hrest] at h
    obtain ⟨x, rfl, hx, hthought⟩ := ih h
    have hrest' := splitFirst_of_absent closeTag_marked (not_infix_of_splitFirst (by decide) hrest) x
    have hopen' := splitFirst_of_absent openTag_marked (not_infix_of_splitFirst (by decide) hopen)
      (thought' ++ (closeTag ++ x))
    refine ⟨before ++ (openTag ++ (thought' ++ (closeTag ++ x))), ?_, ?_, hthought⟩
    · rw [eq_of_splitFirst hopen, eq_of_splitFirst hrest]
      simp only [List.append_assoc]
    · rw [outside_of_closed hopen' hrest', hx]

/-! ## The text without its blocks -/

theorem unblocked_append (hx : (outside x).2 = Option.none) (h : ¬ Splits openTag x y) :
    unblocked (x ++ y) = unblocked x ++ unblocked y := by
  rw [unblocked, outside_append hx h, unblocked, hx, unblocked, Option.map_none, Option.getD_none, List.append_nil,
    List.append_assoc]

theorem unblocked_of_no_close (h : ¬ closeTag <:+: t) : unblocked t = t := by
  rw [unblocked, ← thinkBlocks_eq, thinkBlocks_of_no_close ((splitFirst_eq_none_iff (by decide)).mpr h)]

theorem unblocked_block (h : ¬ closeTag <:+: thought) (y : Text) :
    unblocked (openTag ++ (thought ++ (closeTag ++ y))) = unblocked y := by
  have hopen : splitFirst openTag (openTag ++ (thought ++ (closeTag ++ y))) = some ([], thought ++ (closeTag ++ y)) :=
    splitFirst_of_absent openTag_marked (show ¬ openTag <:+: [] by decide) _
  have hclose := splitFirst_of_absent closeTag_marked h y
  rw [unblocked, outside_of_closed hopen hclose]
  rfl

theorem not_closeTag_infix_open (h : ¬ closeTag <:+: thought) : ¬ closeTag <:+: openTag ++ thought := fun hi =>
  (infix_append_iff_splits.mp hi).elim (by decide) fun h' =>
    h'.elim h (closeTag_bracketed.not_splits_of_last openTag_bracketed.last)

theorem not_splits_openTag (x y : Text) : ¬ Splits openTag x (openTag ++ y) :=
  openTag_bracketed.not_splits_of_head rfl

/-- A block that is open stays open behind a text that does not close it. -/
theorem outside_open_append (hx : (outside x).2 = Option.none) (h : ¬ closeTag <:+: thought) :
    (outside (x ++ (openTag ++ thought))).2 = some thought := by
  have hopen : splitFirst openTag (openTag ++ thought) = some ([], thought) :=
    splitFirst_of_absent openTag_marked (show ¬ openTag <:+: [] by decide) _
  rw [outside_append hx (not_splits_openTag x thought),
    outside_of_open hopen ((splitFirst_eq_none_iff (by decide)).mpr h)]

/-- Behind a text that breaks off inside a block, either no closing tag follows
or a block lies across the joint. -/
theorem closeTag_of_open (hx : (outside x).2 = Option.none) (hthought : ¬ closeTag <:+: thought)
    (h : ¬ BlockAcross (x ++ (openTag ++ thought)) b) : ¬ closeTag <:+: thought ++ b := by
  intro hclose
  obtain ⟨thought', y, hsplit⟩ := exists_splitFirst closeTag_bracketed.ne_nil hclose
  have heq := eq_of_splitFirst hsplit
  obtain ⟨z, hz, -⟩ | ⟨v, hv, rfl⟩ := List.append_eq_append_iff.mp heq.symm
  · exact hthought ⟨thought', z, hz.symm⟩
  · have hv0 : v ≠ [] := fun h0 => by
      rw [h0, List.append_nil] at hv
      exact hthought ⟨thought', [], by rw [hv, List.append_nil]⟩
    have hne : openTag ++ thought ≠ [] := List.append_ne_nil_of_left_ne_nil openTag_bracketed.ne_nil _
    exact h ⟨x, openTag ++ thought, v, y, thought', rfl, rfl, hne, hv0, by rw [List.append_assoc, ← hv],
      not_infix_of_splitFirst (by decide) hsplit, hx⟩

/-- The beginning of an opening tag closes nothing. -/
theorem not_closeTag_infix_of_openTag {o₁ o₂ : Text} (htag : openTag = o₁ ++ o₂) (h₂ : o₂ ≠ []) :
    ¬ closeTag <:+: o₁ := fun hi =>
  openTag_bracketed.not_mem_of_append' htag h₂ (hi.subset (List.mem_of_getLast? closeTag_bracketed.last))

/-- Before an opening tag that goes on behind a text, the text ends outside of
its blocks if it does with the beginning of the tag. -/
theorem outside_before_tag {o₁ o₂ : Text} (htag : openTag = o₁ ++ o₂) (h₁ : o₁ ≠ []) (h₂ : o₂ ≠ [])
    (h : (outside (x ++ o₁)).2 = Option.none) : (outside x).2 = Option.none := by
  have hhead : o₁.head? = some '<' := head?_of_isPrefix ⟨o₂, htag.symm⟩ h₁
  cases hx : (outside x).2 with
  | none => rfl
  | some thought =>
    obtain ⟨x, rfl, hx, hthought⟩ := exists_open_block hx
    have hopen : ¬ closeTag <:+: thought ++ o₁ := fun hi => (infix_append_iff_splits.mp hi).elim hthought fun h' =>
      h'.elim (not_closeTag_infix_of_openTag htag h₂) (closeTag_bracketed.not_splits_of_head hhead)
    rw [List.append_assoc, List.append_assoc, outside_open_append hx hopen] at h
    cases h

/-- A text is passed over on both sides of a joint that an opening tag lies
across, if its block does not end. -/
theorem unblocked_append_of_splits (ha : (outside a).2 = Option.none) (hsplits : Splits openTag a b)
    (h : ¬ BlockAcross a b) : unblocked (a ++ b) = unblocked a ++ unblocked b := by
  obtain ⟨o₁, o₂, h₁, h₂, htag, ⟨x, rfl⟩, ⟨y, rfl⟩⟩ := hsplits
  have hhead : o₁.head? = some '<' := head?_of_isPrefix ⟨o₂, htag.symm⟩ h₁
  have hx := outside_before_tag htag h₁ h₂ ha
  have hy : ¬ closeTag <:+: y := by
    intro hclose
    obtain ⟨thought, z, hsplit⟩ := exists_splitFirst closeTag_bracketed.ne_nil hclose
    refine h ⟨x, o₁, o₂ ++ (thought ++ closeTag), z, thought, rfl, ?_, h₁, by simp [h₂], ?_,
      not_infix_of_splitFirst closeTag_bracketed.ne_nil hsplit, hx⟩
    · rw [eq_of_splitFirst hsplit]
      simp only [List.append_assoc]
    · rw [htag, List.append_assoc]
  have hrest : ¬ closeTag <:+: o₂ ++ y := fun hi =>
    hy (closeTag_marked.infix_of_not_mem (openTag_bracketed.not_mem_of_append htag h₁) hi)
  have hjoined : x ++ o₁ ++ (o₂ ++ y) = x ++ (openTag ++ y) := by
    rw [htag]
    simp only [List.append_assoc]
  rw [hjoined, unblocked_append hx (not_splits_openTag x y),
    unblocked_append hx (openTag_bracketed.not_splits_of_head hhead),
    unblocked_of_no_close (not_closeTag_infix_open hy),
    unblocked_of_no_close (not_closeTag_infix_of_openTag htag h₂), unblocked_of_no_close hrest, htag]
  simp only [List.append_assoc]

/-- A text is passed over on both sides of a joint that no block lies
across. -/
theorem unblocked_append_of_not_across (h : ¬ BlockAcross a b) : unblocked (a ++ b) = unblocked a ++ unblocked b := by
  cases hout : (outside a).2 with
  | some thought =>
    obtain ⟨x, rfl, hx, hthought⟩ := exists_open_block hout
    have hclose := closeTag_of_open hx hthought h
    have hb : ¬ closeTag <:+: b := fun hi => hclose (List.infix_append_of_infix_right hi)
    rw [List.append_assoc, List.append_assoc, unblocked_append hx (not_splits_openTag x _),
      unblocked_append hx (not_splits_openTag x _), unblocked_of_no_close (not_closeTag_infix_open hclose),
      unblocked_of_no_close (not_closeTag_infix_open hthought), unblocked_of_no_close hb, List.append_assoc,
      List.append_assoc]
  | none =>
    by_cases hsplits : Splits openTag a b
    · exact unblocked_append_of_splits hout hsplits h
    · exact unblocked_append hout hsplits

/-- Where a block breaks off before its closing tag ends, the tag is not in what
is there of it. -/
theorem not_closeTag_infix_of_block {u v : Text} (hblock : u ++ v = openTag ++ (thought ++ closeTag)) (hv : v ≠ [])
    (hthought : ¬ closeTag <:+: thought) : u <+: openTag ++ thought ++ closeTag.dropLast ∧ ¬ closeTag <:+: u := by
  have hbegin : u <+: openTag ++ thought ++ closeTag.dropLast := by
    refine ⟨v.dropLast, ?_⟩
    have := congrArg List.dropLast hblock
    rwa [List.dropLast_append_of_ne_nil hv, ← List.append_assoc,
      List.dropLast_append_of_ne_nil closeTag_bracketed.ne_nil] at this
  refine ⟨hbegin, fun hi => ?_⟩
  exact (infix_append_iff_splits.mp (hi.trans hbegin.isInfix)).elim (not_closeTag_infix_open hthought) fun h' =>
    h'.elim (by decide) (closeTag_bracketed.not_splits_of_head (by decide))

/-- What is there of a block behind a joint ends outside of its blocks. -/
theorem outside_end_of_block {u v : Text} (hblock : u ++ v = openTag ++ (thought ++ closeTag)) :
    (outside v).2 = Option.none := by
  cases hout : (outside v).2 with
  | none => rfl
  | some thought' =>
    obtain ⟨z, rfl, -, hthought'⟩ := exists_open_block hout
    have hclose : closeTag <:+ u ++ (z ++ (openTag ++ thought')) :=
      ⟨openTag ++ thought, by rw [hblock, List.append_assoc]⟩
    have hopen : openTag ++ thought' <:+ u ++ (z ++ (openTag ++ thought')) := ⟨u ++ z, by rw [List.append_assoc]⟩
    -- the closing tag is the end of the text, and a tag that opens before it would reach beyond it
    obtain hs | hs := List.suffix_or_suffix_of_suffix hclose hopen
    · exact absurd hs.isInfix (not_closeTag_infix_open hthought')
    · exact absurd ((List.prefix_append openTag thought').isInfix.trans hs.isInfix) (by decide)

/-- A block that lies across the joint is shown with the parts, at least its
beginning, and not with the whole. -/
theorem unblocked_of_across (h : BlockAcross a b) : ∃ x u v y thought, unblocked (a ++ b) = unblocked x ++ unblocked y ∧
    unblocked a = unblocked x ++ u ∧ unblocked b = v ++ unblocked y ∧ u ≠ [] ∧ u <+: openTag ++ thought := by
  obtain ⟨x, u, v, y, thought, rfl, rfl, hu, hv, hblock, hthought, hx⟩ := h
  have hhead : u.head? = some '<' := head?_of_isPrefix ⟨v, hblock⟩ hu
  have hlast : v.getLast? = some '>' := by
    have := congrArg List.getLast? hblock
    rw [List.getLast?_append_of_ne_nil _ hv, ← List.append_assoc,
      List.getLast?_append_of_ne_nil _ closeTag_bracketed.ne_nil, closeTag_bracketed.last] at this
    exact this
  obtain ⟨hbegin, huclose⟩ := not_closeTag_infix_of_block hblock hv hthought
  refine ⟨x, u, unblocked v, y, thought ++ closeTag.dropLast, ?_, ?_, ?_, hu, ?_⟩
  · have hjoined : x ++ u ++ (v ++ y) = x ++ (openTag ++ (thought ++ (closeTag ++ y))) := by
      rw [List.append_assoc, ← List.append_assoc u, hblock]
      simp only [List.append_assoc]
    rw [hjoined, unblocked_append hx (not_splits_openTag x _), unblocked_block hthought]
  · rw [unblocked_append hx (openTag_bracketed.not_splits_of_head hhead), unblocked_of_no_close huclose]
  · exact unblocked_append (outside_end_of_block hblock) (openTag_bracketed.not_splits_of_last hlast)
  · rwa [← List.append_assoc]

end Outside

/-! ## White space at the joint -/

/-- The text ends in white space, when the control tokens are taken out. -/
def EndsInSpace (t : Text) : Prop := ∃ x c g, t = x ++ c :: g ∧ isWhitespace c = true ∧ g ∈ controlFillers

/-- The text begins with white space, when the control tokens are taken out. -/
def BeginsWithSpace (t : Text) : Prop := ∃ g c x, t = g ++ c :: x ∧ isWhitespace c = true ∧ g ∈ controlFillers

/-- The texts of one white space. -/
def spaces : Language Char := {s | ∃ c, s = [c] ∧ isWhitespace c = true}

/-- The text is white space and control tokens. -/
def OnlySpace (t : Text) : Prop := t ∈ (controlFillers + spaces)∗

section Space

variable {t x y : Text} {c : Char}

theorem mem_controlFillers_iff : t ∈ controlFillers ↔ deletions removing controlWords t = [] := by
  rw [controlFillers, mem_fillers_length_iff deletes_removing controlWords_bracketed controlWords_nodup]

theorem controlWords_no_space : ∀ s ∈ controlWords, ∀ d ∈ s, isWhitespace d = false := by
  have hall : controlWords.all (fun s => s.all fun d => !isWhitespace d) = true := by decide
  intro s hs d hd
  simpa using List.all_eq_true.mp (List.all_eq_true.mp hall s hs) d hd

theorem not_mem_controlWords (hc : isWhitespace c = true) : ∀ s ∈ controlWords, c ∉ s := fun s hs h => by
  rw [controlWords_no_space s hs c h] at hc
  cases hc

theorem getLast?_deletions_iff :
    (∀ c ∈ (deletions removing controlWords t).getLast?, isWhitespace c = false) ↔ ¬ EndsInSpace t := by
  constructor
  · rintro h ⟨x, c, g, rfl, hc, hg⟩
    rw [deletions_append_cons deletes_removing controlWords_bracketed (not_mem_controlWords hc),
      mem_controlFillers_iff.mp hg] at h
    rw [h c (by simp)] at hc
    cases hc
  · intro h c hc
    by_contra hspace
    obtain ⟨x, hx⟩ := List.getLast?_eq_some_iff.mp hc
    obtain ⟨u, v, rfl, -, hv⟩ := deletions_exists_append deletes_removing controlWords_bracketed hx
    obtain ⟨g, w, rfl, -, hw⟩ := deletions_exists_cons deletes_removing controlWords_bracketed hv
    exact h ⟨u ++ g, c, w, by rw [List.append_assoc], by simpa using hspace, mem_controlFillers_iff.mpr hw⟩

theorem head?_deletions_iff :
    (∀ c ∈ (deletions removing controlWords t).head?, isWhitespace c = false) ↔ ¬ BeginsWithSpace t := by
  constructor
  · rintro h ⟨g, c, x, rfl, hc, hg⟩
    rw [deletions_append_cons deletes_removing controlWords_bracketed (not_mem_controlWords hc),
      mem_controlFillers_iff.mp hg] at h
    rw [h c rfl] at hc
    cases hc
  · intro h c hc
    by_contra hspace
    obtain ⟨x, hx⟩ := List.head?_eq_some_iff.mp hc
    obtain ⟨g, w, rfl, hg, -⟩ := deletions_exists_cons deletes_removing controlWords_bracketed hx
    exact h ⟨g, c, w, rfl, by simpa using hspace, mem_controlFillers_iff.mpr hg⟩

theorem OnlySpace.append (hx : OnlySpace x) (hy : OnlySpace y) : OnlySpace (x ++ y) := by
  rw [OnlySpace, ← kstar_mul_kstar]
  exact Language.append_mem_mul hx hy

theorem onlySpace_of_mem (ht : t ∈ controlFillers + spaces) : OnlySpace t := by
  have hle : controlFillers + spaces ≤ (controlFillers + spaces)∗ := le_kstar
  exact hle ht

theorem all_deletions_iff : (∀ c ∈ deletions removing controlWords t, isWhitespace c = true) ↔ OnlySpace t := by
  constructor
  · intro h
    obtain ⟨ps, g, rfl, hps, hgaps, hg⟩ :=
      exists_spaced_of_deletions deletes_removing controlWords_bracketed (t := t) rfl
    rw [← hps, letters, List.forall_mem_map] at h
    clear hps
    induction ps with
    | nil => exact onlySpace_of_mem (.inl (mem_controlFillers_iff.mpr hg))
    | cons p ps ih =>
      rw [List.forall_mem_cons] at h hgaps
      rw [spaced_cons, List.append_assoc, ← List.singleton_append, List.append_assoc]
      have hgap : OnlySpace p.1 := onlySpace_of_mem (.inl (mem_controlFillers_iff.mpr hgaps.1))
      have hletter : OnlySpace [p.2] := onlySpace_of_mem (.inr ⟨p.2, rfl, h.1⟩)
      exact hgap.append (hletter.append (ih h.2 hgaps.2))
  · rintro ⟨pieces, rfl, hpieces⟩
    induction pieces with
    | nil =>
      rw [List.flatten_nil, deletions_nil deletes_removing controlWords_bracketed]
      exact fun c hc => (by cases hc)
    | cons piece pieces ih =>
      rw [List.forall_mem_cons] at hpieces
      rw [List.flatten_cons]
      obtain hfiller | ⟨c, rfl, hc⟩ := hpieces.1
      · rw [deletions_append_of_nil deletes_removing controlWords_bracketed (mem_controlFillers_iff.mp hfiller)]
        exact ih hpieces.2
      · have hcons := deletions_append_cons deletes_removing controlWords_bracketed (not_mem_controlWords hc) []
          pieces.flatten
        rw [List.nil_append] at hcons
        rw [List.singleton_append, hcons, deletions_nil deletes_removing controlWords_bracketed, List.nil_append,
          List.forall_mem_cons]
        exact ⟨hc, ih hpieces.2⟩

end Space

/-! ## The joint -/

/-- Nothing that is taken out lies across the joint of `a` and `b`: no block, no
control token, and no white space, unless there is nothing else in `b`. -/
structure Joins (a b : Text) : Prop where
  noBlock : ¬ BlockAcross a b
  noToken : ∀ n s, controlWords[n]? = some s → ¬ SplitsAround (fillers controlWords n) s (unblocked a) (unblocked b)
  noSpace : OnlySpace (unblocked b) ∨ ¬ EndsInSpace (unblocked a) ∧ ¬ BeginsWithSpace (unblocked b)

section Joint

variable {a b x u thought : Text}

/-- The brackets that are left of a text. -/
def openings (t : Text) : Nat := (deletions removing controlWords t).count '<'

theorem deletions_append_openTag (x y : Text) : deletions removing controlWords (x ++ (openTag ++ y)) =
    deletions removing controlWords x ++ (openTag ++ deletions removing controlWords y) := by
  simp only [deletions, controlWords, List.foldl_map]
  exact foldl_replacingOccurrences_openTag controlTokens (List.Subset.refl _) x y

/-- The beginning of a block stays, with its bracket. -/
theorem openings_lt_append (hu : u ≠ []) (h : u <+: openTag ++ thought) (x : Text) :
    openings x < openings (x ++ u) := by
  have hhead : u.head? = some '<' := head?_of_isPrefix h hu
  rw [openings, openings]
  by_cases htag : openTag <+: u
  · obtain ⟨v, rfl⟩ := htag
    have hcount : openTag.count '<' = 1 := by decide
    rw [deletions_append_openTag, List.count_append, List.count_append, hcount]
    omega
  · obtain ⟨v, hv⟩ := (List.prefix_or_prefix_of_prefix h (List.prefix_append openTag thought)).resolve_right htag
    have hv0 : v ≠ [] := fun h0 => htag ⟨[], by rw [← hv, h0, List.append_nil, List.append_nil]⟩
    have hclose : '>' ∉ u := openTag_bracketed.not_mem_of_append' hv.symm hv0
    have hcount : 0 < u.count '<' := List.count_pos_iff.mpr (List.mem_of_head? hhead)
    rw [deletions_append_open deletes_removing controlWords_bracketed hhead hclose, List.count_append]
    omega

/-- Where a block lies across the joint, less is left of the whole than of the
parts. -/
theorem openings_lt_of_across (h : BlockAcross a b) :
    openings (unblocked (a ++ b)) < openings (unblocked a) + openings (unblocked b) := by
  obtain ⟨x, u, v, y, thought, hab, ha, hb, hu, hbegin⟩ := unblocked_of_across h
  have hopening := openings_lt_append hu hbegin (unblocked x)
  have hjoined := count_deletions_append_le deletes_removing controlWords_bracketed (unblocked x) (unblocked y)
  have hrest := count_deletions_le_append deletes_removing controlWords_bracketed v (unblocked y)
  rw [hab, ha, hb]
  simp only [openings] at hopening hjoined hrest ⊢
  omega

theorem visibleContent_eq (text : String) : visibleContent text =
    String.ofList (trim isWhitespace (deletions removing controlWords (unblocked text.toList))) := by
  rw [visibleContent, thinkBlocks_eq, sanitizeOutput_eq]
  rfl

/-- A text that shows something has a letter left that is no white space. -/
theorem exists_ink_of_shows {text : String} (h : visibleContent text ≠ "") :
    ∃ c ∈ deletions removing controlWords (unblocked text.toList), isWhitespace c = false := by
  by_contra hnone
  push Not at hnone
  have hall : ∀ c ∈ deletions removing controlWords (unblocked text.toList), isWhitespace c = true := fun c hc => by
    simpa using hnone c hc
  rw [visibleContent_eq, trim, List.dropWhile_eq_nil_iff.mpr hall] at h
  exact h rfl

/-- What is shown of two parts, the first of which shows something, is what is
shown of the whole exactly if nothing that is taken out lies across the
joint. -/
theorem visibleContent_append_iff {a b : String} (ha : visibleContent a ≠ "") :
    visibleContent a ++ visibleContent b = visibleContent (a ++ b) ↔ Joins a.toList b.toList := by
  have hbracket : isWhitespace '<' = false := by decide
  have hshows := exists_ink_of_shows ha
  rw [visibleContent_eq, visibleContent_eq, visibleContent_eq, ← String.ofList_append, String.ofList_inj,
    String.toList_append]
  generalize a.toList = x at hshows ⊢
  generalize b.toList = y
  by_cases hacross : BlockAcross x y
  · refine iff_of_false (fun heq => ?_) fun h => h.noBlock hacross
    have hlt := openings_lt_of_across hacross
    have hcount := congrArg (List.count '<') heq
    rw [List.count_append, count_trim hbracket, count_trim hbracket, count_trim hbracket] at hcount
    simp only [openings] at hlt
    omega
  · rw [unblocked_append_of_not_across hacross]
    have hsplits := splitsOne_iff deletes_removing controlWords_bracketed (x := unblocked x) (y := unblocked y)
      controlWords_nodup
    obtain ⟨heq, hnot⟩ | ⟨hlt, hone⟩ :=
      deletions_append_cases deletes_removing controlWords_bracketed (unblocked x) (unblocked y)
    · rw [heq, eq_comm, trim_append_eq_iff hshows, all_deletions_iff, getLast?_deletions_iff, head?_deletions_iff]
      refine ⟨fun h => ⟨hacross, fun n s hs hsplit => hnot (hsplits.mpr ⟨n, s, hs, hsplit⟩), h⟩, fun h => h.noSpace⟩
    · refine iff_of_false (fun heq => ?_) fun h => ?_
      · have hcount := congrArg (List.count '<') heq
        rw [List.count_append, count_trim hbracket, count_trim hbracket, count_trim hbracket] at hcount
        omega
      · obtain ⟨n, s, hs, hsplit⟩ := hsplits.mp hone
        exact h.noToken n s hs hsplit

end Joint

end SynapsNotes.Chat
