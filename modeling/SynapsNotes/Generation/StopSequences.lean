import SynapsNotes.Generation.Loop

/-!
# Where a stream stops

`completion` compares each piece, and the end of the buffer, with the stop
sequences before it yields the piece. What it should yield is the text up to
the first stop sequence (`upTo`). It does so exactly if no stop sequence was
generated, or the first begins with a piece and lies within it
(`StandsAlone`): a piece that holds one is dropped as a whole, and of one that
is spread over several pieces only the last is.

The stop sequences are marked by their first letter, so that a piece that is a
part of one holds no other further on.
-/

namespace SynapsNotes.Generation

open Framework

variable {stops : List Text}

/-! ## The pieces that are yielded -/

/-- The pieces that are yielded, of all that are generated; `buffer` is the
text before them. -/
def yieldedPieces (stops : List Text) : Text → List Text → List Text
  | _, [] => []
  | buffer, piece :: pieces =>
    if shouldStop stops (buffer ++ piece) piece then []
    else piece :: yieldedPieces stops (buffer ++ piece) pieces

/-- No stop sequence occurs in the pieces, or the first one begins with a
piece and lies within it. -/
def StandsAlone (stops : List Text) (pieces : List Text) : Prop :=
  ¬ Occurs stops pieces.flatten ∨
    ∃ before piece after, pieces = before ++ piece :: after ∧ (∃ seq ∈ stops, seq <+: piece) ∧
      ∀ seq ∈ stops, ∀ x y, pieces.flatten = x ++ seq ++ y → before.flatten.length ≤ x.length

theorem shouldStop_iff {buffer piece : Text} (h0 : [] ∉ stops) :
    shouldStop stops buffer piece = true ↔
      (∃ seq ∈ stops, seq <:+ buffer) ∨ ∃ seq ∈ stops, seq <:+: piece := by
  have hcontains (seq : Text) (hseq : seq ∈ stops) :
      Text.containsText seq piece = true ↔ seq <:+: piece := by
    have hne : seq ≠ [] := fun h => h0 (h ▸ hseq)
    rw [Text.containsText, ← not_iff_not, ← Text.splitFirst_eq_none_iff hne]
    simp
  simp only [shouldStop, List.any_eq_true, Bool.or_eq_true, List.isSuffixOf_iff_suffix]
  constructor
  · rintro ⟨seq, hseq, h | h⟩
    · exact .inl ⟨seq, hseq, h⟩
    · exact .inr ⟨seq, hseq, (hcontains seq hseq).mp h⟩
  · rintro (⟨seq, hseq, h⟩ | ⟨seq, hseq, h⟩)
    · exact ⟨seq, hseq, .inl h⟩
    · exact ⟨seq, hseq, .inr ((hcontains seq hseq).mpr h)⟩

/-- The pieces before the first one that stops are yielded, all of them if
none does. -/
theorem yieldedPieces_spec (stops : List Text) (buffer : Text) (pieces : List Text) :
    (∀ before piece after, yieldedPieces stops buffer pieces = before ++ piece :: after →
      shouldStop stops (buffer ++ before.flatten ++ piece) piece = false) ∧
    (yieldedPieces stops buffer pieces = pieces ∨
      ∃ piece after, pieces = yieldedPieces stops buffer pieces ++ piece :: after ∧
        shouldStop stops (buffer ++ (yieldedPieces stops buffer pieces).flatten ++ piece) piece = true) := by
  induction pieces generalizing buffer with
  | nil => exact ⟨fun before piece after h => by simp [yieldedPieces] at h, .inl rfl⟩
  | cons p pieces ih =>
    rw [yieldedPieces]
    split
    · rename_i hstop
      exact ⟨fun before piece after h => by simp at h, .inr ⟨p, pieces, rfl, by simpa using hstop⟩⟩
    · rename_i hgo
      obtain ⟨hbefore, hall⟩ := ih (buffer ++ p)
      constructor
      · intro before piece after h
        cases before with
        | nil =>
          cases h
          simpa using hgo
        | cons q before =>
          injection h with hq h
          subst hq
          simpa [List.append_assoc] using hbefore before piece after h
      · rcases hall with heq | ⟨piece, after, hps, hstop⟩
        · exact .inl (by rw [heq])
        · refine .inr ⟨piece, after, by rw [List.cons_append, ← hps], ?_⟩
          simpa [List.append_assoc] using hstop

/-! ## Against the text up to the first stop sequence -/

section Marked

variable {c : Char} (hmarked : ∀ seq ∈ stops, Marked c seq)
include hmarked

theorem nil_notMem : [] ∉ stops := fun h => by
  obtain ⟨r, hr, _⟩ := hmarked [] h
  exact nomatch hr

/-- A piece that stops the stream ends with the end of a stop sequence or
holds one. -/
theorem exists_occurrence {before : Text} {piece : Text}
    (h : shouldStop stops (before ++ piece) piece = true) :
    ∃ seq ∈ stops, ∃ x y, before ++ piece = x ++ seq ++ y := by
  rcases (shouldStop_iff (nil_notMem hmarked)).mp h with ⟨seq, hseq, x, hx⟩ | ⟨seq, hseq, x, y, hxy⟩
  · exact ⟨seq, hseq, x, [], by rw [hx, List.append_nil]⟩
  · exact ⟨seq, hseq, before ++ x, y, by rw [← hxy]; simp⟩

/-- A piece that stops the stream, while nothing occurs before it, holds a
stop sequence. -/
theorem infix_of_shouldStop {before piece : Text} (after : Text)
    (h : shouldStop stops (before ++ piece) piece = true)
    (hfirst : ∀ seq ∈ stops, ∀ x y, before ++ piece ++ after = x ++ seq ++ y → before.length ≤ x.length) :
    ∃ seq ∈ stops, seq <:+: piece := by
  rcases (shouldStop_iff (nil_notMem hmarked)).mp h with ⟨seq, hseq, x, hx⟩ | hin
  · have hle := hfirst seq hseq x after (by rw [hx])
    have hlen := congrArg List.length hx
    simp only [List.length_append] at hlen
    refine ⟨seq, hseq, (List.IsSuffix.isInfix ?_)⟩
    exact List.suffix_of_suffix_length_le ⟨x, hx⟩ (List.suffix_append before piece) (by omega)
  · exact hin

/-- Where the stream stops at a piece, it has what stands before the first
stop sequence exactly if the piece begins with it. -/
theorem flatten_eq_upTo_iff {before after : List Text} {piece : Text}
    (hstop : shouldStop stops (before.flatten ++ piece) piece = true) :
    before.flatten = upTo stops (before ++ piece :: after).flatten ↔
      (∃ seq ∈ stops, seq <+: piece) ∧
        ∀ seq ∈ stops, ∀ x y, (before ++ piece :: after).flatten = x ++ seq ++ y →
          before.flatten.length ≤ x.length := by
  have hflat : (before ++ piece :: after).flatten = before.flatten ++ (piece ++ after.flatten) := by simp
  have hpre := upTo_prefix stops (before ++ piece :: after).flatten
  have hne {seq : Text} (h : seq ∈ stops) : seq ≠ [] := fun h0 => nil_notMem hmarked (h0 ▸ h)
  constructor
  · intro heq
    have hfirst : ∀ seq ∈ stops, ∀ x y, (before ++ piece :: after).flatten = x ++ seq ++ y →
        before.flatten.length ≤ x.length := fun seq hseq x y hxy =>
      heq ▸ length_upTo_le hseq (hne hseq) hxy
    obtain ⟨seq, hseq, hin⟩ := infix_of_shouldStop hmarked after.flatten hstop
      fun seq hseq x y hxy => hfirst seq hseq x y (by rw [hflat, ← hxy, List.append_assoc])
    have hpiece : piece ++ after.flatten ≠ [] := by
      intro hnil
      obtain ⟨rfl, _⟩ := List.append_eq_nil_iff.mp hnil
      exact hne hseq (List.eq_nil_of_infix_nil hin)
    have hupTo : (before ++ piece :: after).flatten =
        upTo stops (before ++ piece :: after).flatten ++ (piece ++ after.flatten) := by rw [← heq]; exact hflat
    obtain ⟨seq₀, hseq₀, hp₀⟩ := prefix_of_upTo_append hupTo hpiece
    refine ⟨?_, hfirst⟩
    -- the first stop sequence lies within the piece, or the piece within it
    rcases List.prefix_or_prefix_of_prefix hp₀ (List.prefix_append piece after.flatten) with h | h
    · exact ⟨seq₀, hseq₀, h⟩
    · exact ⟨seq, hseq, (hmarked seq hseq).prefix_of_inside (hmarked seq₀ hseq₀) h hin⟩
  · rintro ⟨⟨seq, hseq, z, rfl⟩, hfirst⟩
    have hle := length_upTo_le (x := before.flatten) (y := z ++ after.flatten) hseq (hne hseq)
      (hflat.trans (by simp))
    obtain ⟨w, hw⟩ := hpre
    have hge : before.flatten.length ≤ (upTo stops (before ++ (seq ++ z) :: after).flatten).length := by
      cases w with
      | nil =>
        rw [List.append_nil] at hw
        rw [hw, hflat]
        simp
      | cons a w =>
        obtain ⟨seq', hseq', y, hy⟩ := prefix_of_upTo_append hw.symm (List.cons_ne_nil a w)
        exact hfirst seq' hseq' _ y (by rw [List.append_assoc, hy, hw])
    exact (List.prefix_of_prefix_length_le (hflat ▸ List.prefix_append _ _) ⟨w, hw⟩ hge).eq_of_length
      (hge.antisymm hle)

/-- A piece that stops the stream, where none before it does, and a piece that
the first stop sequence begins with are the same one. -/
theorem stopping_piece_unique {before before' after after' : List Text} {piece piece' : Text}
    (hps : before ++ piece :: after = before' ++ piece' :: after')
    (hgo : ∀ b p a, before = b ++ p :: a → shouldStop stops (b.flatten ++ p) p = false)
    (hstop : shouldStop stops (before.flatten ++ piece) piece = true) (hp' : ∃ seq ∈ stops, seq <+: piece')
    (hfirst : ∀ seq ∈ stops, ∀ x y, (before ++ piece :: after).flatten = x ++ seq ++ y →
      before'.flatten.length ≤ x.length) :
    before = before' ∧ piece = piece' ∧ after = after' := by
  have hnil := nil_notMem hmarked
  rcases List.append_eq_append_iff.mp hps with ⟨as, rfl, has⟩ | ⟨bs, rfl, hbs⟩
  · cases as with
    | nil =>
      cases has
      exact ⟨(List.append_nil before).symm, rfl, rfl⟩
    | cons q as =>
      -- the piece that stops holds a stop sequence, and it is not the first
      cases has
      obtain ⟨seq, hseq, x, y, hxy⟩ := exists_occurrence hmarked hstop
      have hle := hfirst seq hseq x (y ++ (as ++ piece' :: after').flatten) (by rw [← List.append_assoc, ← hxy]; simp)
      have hlen := congrArg List.length hxy
      have hpos := List.length_pos_iff.mpr fun h0 : seq = [] => hnil (h0 ▸ hseq)
      simp only [List.length_append, List.flatten_append, List.flatten_cons] at hle hlen
      omega
  · cases bs with
    | nil =>
      cases hbs
      exact ⟨List.append_nil before', rfl, rfl⟩
    | cons q bs =>
      -- the piece that the stop sequence begins with stops the stream, and it is before
      cases hbs
      obtain ⟨seq', hseq', hp'⟩ := hp'
      have hgo := hgo before' piece' bs rfl
      rw [(shouldStop_iff hnil).mpr (.inr ⟨seq', hseq', hp'.isInfix⟩)] at hgo
      exact nomatch hgo

/-- The pieces that are yielded make up the text before the first stop
sequence, exactly if that stands alone or there is none. -/
theorem flatten_yieldedPieces_iff (pieces : List Text) :
    (yieldedPieces stops [] pieces).flatten = upTo stops pieces.flatten ↔ StandsAlone stops pieces := by
  have hnil := nil_notMem hmarked
  obtain ⟨hgo, heq | ⟨piece, after, hps, hstop⟩⟩ := yieldedPieces_spec stops [] pieces
  · rw [heq, eq_comm, upTo_eq_self_iff hnil, StandsAlone]
    refine ⟨.inl, fun h => h.resolve_right ?_⟩
    rintro ⟨before, piece, after, hps, ⟨seq, hseq, hp⟩, _⟩
    have hgo := hgo before piece after (heq.trans hps)
    rw [(shouldStop_iff hnil).mpr (.inr ⟨seq, hseq, hp.isInfix⟩)] at hgo
    exact nomatch hgo
  · generalize yieldedPieces stops [] pieces = before at hgo hps hstop
    subst hps
    rw [List.nil_append] at hstop
    rw [flatten_eq_upTo_iff hmarked hstop]
    refine ⟨fun h => .inr ⟨before, piece, after, rfl, h⟩, fun h => ?_⟩
    rcases h with hno | ⟨before', piece', after', hps, hp', hfirst⟩
    · obtain ⟨seq, hseq, x, y, hxy⟩ := exists_occurrence hmarked hstop
      refine absurd ⟨seq, hseq, List.IsInfix.trans ⟨x, y, hxy.symm⟩ ?_⟩ hno
      exact ⟨[], after.flatten, by simp⟩
    · obtain ⟨rfl, rfl, rfl⟩ := stopping_piece_unique hmarked hps hgo hstop hp' hfirst
      exact ⟨hp', hfirst⟩

end Marked

/-! ## The loop -/

/-- One piece more, after pieces that were all yielded. -/
theorem yieldedPieces_concat {buffer : Text} {pieces : List Text} (piece : Text)
    (h : yieldedPieces stops buffer pieces = pieces) :
    yieldedPieces stops buffer (pieces ++ [piece]) =
      if shouldStop stops (buffer ++ pieces.flatten ++ piece) piece then pieces else pieces ++ [piece] := by
  induction pieces generalizing buffer with
  | nil => simp [yieldedPieces]
  | cons p pieces ih =>
    rw [yieldedPieces] at h
    split at h
    · exact nomatch h
    · rename_i hgo
      rw [List.cons_append, yieldedPieces, if_neg hgo, ih (List.cons.inj h).2]
      simp only [List.flatten_cons, List.append_assoc]
      split <;> rfl

variable {C Token : Type} {L : Llama C Token} {maxTokens : ℕ} {stopRequested : Bool} {s s' : LoopState C Token}

/-- The loop yields the pieces that are to be yielded of those it draws. -/
structure Yields (L : Llama C Token) (stops : List Text) (s : LoopState C Token) : Prop extends Kept L s where
  pieces : s.yielded.map (tokenToPiece L) = yieldedPieces stops [] (s.pieces L)

theorem Yields.step (h : Yields L stops s) (he : (loop L maxTokens stops).step s stopRequested = some s') :
    Yields L stops s' := by
  refine ⟨h.toKept.step he, ?_⟩
  obtain ⟨hnone, rfl⟩ := step_eq he
  have hy : s.yielded = s.drawn := h.yielded (by rw [hnone]; exact nofun)
  have hall : yieldedPieces stops [] (s.pieces L) = s.pieces L := by
    rw [← h.pieces, hy]
    rfl
  have hbuffer : s.generatedTextBuffer = (s.pieces L).flatten := by
    rw [h.buffer, LoopState.pieces, List.flatMap_def]
  have hconcat {token : Token} {t : LoopState C Token} (hd : t.drawn = s.drawn ++ [token]) :
      t.pieces L = s.pieces L ++ [tokenToPiece L token] := by
    rw [LoopState.pieces, hd, List.map_append]
    rfl
  rcases pass_cases L maxTokens stops stopRequested hnone with
    ⟨e, _, _, _, hd, hy'⟩ | ⟨token, hb, hd, ⟨hstop, _, hy'⟩ | ⟨hgo, hy', _⟩⟩
  · rw [hy', h.pieces, LoopState.pieces, LoopState.pieces, hd]
  · rw [hbuffer] at hstop
    rw [hconcat hd, yieldedPieces_concat _ hall, List.nil_append, if_pos hstop, hy', h.pieces, hall]
  · rw [hbuffer] at hgo
    rw [hconcat hd, yieldedPieces_concat _ hall, List.nil_append, hgo, if_neg Bool.false_ne_true, hy',
      List.map_append, h.pieces, hall]
    rfl

theorem stopSequences_marked : ∀ seq ∈ stopSequences, Marked '<' seq := by decide

/-- In every state of every run of the loop, what was streamed is the text up
to the first stop sequence exactly if that stands alone or there is none. -/
theorem streamed_eq_upTo_iff (L : Llama C Token) (maxTokens : ℕ) (context : C) (n_cur : ℕ)
    (flags : List Bool) :
    (completionLoop L maxTokens).Always
      (fun s => s.streamed L = upTo stopSequences (s.pieces L).flatten ↔
        StandsAlone stopSequences (s.pieces L))
      (.start context n_cur) flags := by
  refine (Machine.always_of_invariant (fun s b s' h he => Yields.step h he)
    ⟨kept_start L context n_cur, rfl⟩ flags).mono fun s h => ?_
  rw [LoopState.streamed, List.flatMap_def, h.pieces]
  exact flatten_yieldedPieces_iff stopSequences_marked _

/-- A model that writes given texts, one a token. -/
def Llama.script (texts : List String) : Llama (List String) String where
  tokenize _ := []
  memoryClear _ := texts
  n_ctx := 4096
  n_batch := 512
  decode context _ := some context.tail
  sample context := (context.headD "", context)
  isEog token := token.isEmpty
  tokenBytes token := utf8 token.toList

/-- A piece that ends with a stop sequence is dropped with the text before it:
nothing is streamed of `ok<|im_end|>`. -/
theorem stop_sequence_inside_a_piece :
    ¬ (completionLoop (.script []) 768).Always
      (fun s => s.streamed (.script []) = upTo stopSequences (s.pieces (.script [])).flatten)
      (.start ["ok<|im_end|>"] 0) [false] :=
  Machine.not_always_of_run (by decide +kernel)

-- of a stop sequence in two pieces the first is yielded, and both if text follows in the second
example : yieldedPieces stopSequences [] (["<|im_", "end|>"].map String.toList) =
    ["<|im_".toList] := by decide
example : yieldedPieces stopSequences [] (["<|im_", "end|> more"].map String.toList) =
    ["<|im_".toList, "end|> more".toList] := by decide

end SynapsNotes.Generation
