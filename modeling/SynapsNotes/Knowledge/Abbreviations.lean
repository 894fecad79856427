import SynapsNotes.Knowledge.Blank
import SynapsNotes.Knowledge.Sentences

/-!
# Sentences and abbreviations

A sentence is to end at a run of whitespace behind a terminator, unless the
terminator is the full stop of an abbreviation (`endsSentence`). Texts that
are cut at different runs are different where more text follows
(`cutAt_filter_eq_iff`), so `splitIntoSentences` cuts where it is to, exactly
if it judges every run that is followed by more text as it is to
(`splitIntoSentences_iff`). It judges wrongly behind the shortest initials,
which its pattern misses, behind initials with one more full stop, and where a
run begins with whitespace that its pattern does not match.
-/

namespace SynapsNotes.Knowledge

open Framework

variable {U : Unicode} {text : Text} {i j start : Nat}

/-! ## Where a sentence is to end -/

/-- The positions at which runs of whitespace begin. -/
def whitespaceRuns (text : Text) : List Nat :=
  (List.range text.length).filter fun i =>
    text[i]?.any isWhitespace && (i == 0 || text[i - 1]?.any fun c => !isWhitespace c)

/-- The number of letters, of a token that has a full stop behind each and
nothing else. -/
def letterDots : Text → Option Nat
  | [] => some 0
  | [_] => none
  | c :: d :: rest => if isLatinLower c && d == '.' then (letterDots rest).map (· + 1) else none

def isKnownAbbreviation (token : Text) : Bool := (knownAbbreviations.map String.toList).contains token

/-- The token before a position is a known abbreviation, initials of two or
more letters, or one letter that a lower-case word follows. -/
def abbreviates (U : Unicode) (text : Text) (i : Nat) : Bool :=
  let token := U.lowercased (trailingToken text i)
  isKnownAbbreviation token || (letterDots token).any (2 ≤ ·) ||
    (letterDots token == some 1 && (firstNonWhitespaceCharacter text i).any U.isLowercase)

/-- A sentence is to end at the run that begins at a position. -/
def endsSentence (U : Unicode) (text : Text) (i : Nat) : Bool :=
  behindTerminator text i && !(text[i - 1]? == some '.' && abbreviates U text i)

/-- The sentences are what lies between the runs at which one is to end. -/
def SplitsAtEnds (U : Unicode) (text : Text) : Prop :=
  splitIntoSentences U text = sentencesAt text ((whitespaceRuns text).filter (endsSentence U text))

instance (U : Unicode) (text : Text) : Decidable (SplitsAtEnds U text) :=
  inferInstanceAs (Decidable (splitIntoSentences U text = _))

/-! ## Texts cut at different positions -/

theorem exists_mem_slice (hstart : start < i) (h : text[i - 1]?.any (fun c => !isWhitespace c) = true) :
    ∃ c ∈ (text.take i).drop start, isWhitespace c = false := by
  obtain ⟨c, hc, hspace⟩ := (Option.any_eq_true _ _).mp h
  rw [Bool.not_eq_true'] at hspace
  refine ⟨c, List.mem_of_getElem? (i := i - 1 - start) ?_, hspace⟩
  rw [List.getElem?_drop, List.getElem?_take_of_lt (by omega), show start + (i - 1 - start) = i - 1 by omega]
  exact hc

theorem nonEmpty_of_length_pos {t : Text} (h : 0 < t.length) : nonEmpty t = [t] := by
  rw [nonEmpty, if_neg]
  rw [List.isEmpty_iff]
  exact List.ne_nil_of_length_pos h

theorem nonEmpty_slice (hstart : start < i) (h : text[i - 1]?.any (fun c => !isWhitespace c) = true) :
    nonEmpty (Text.trimmingCharacters ((text.take i).drop start)) =
      [Text.trimmingCharacters ((text.take i).drop start)] := by
  refine nonEmpty_of_length_pos ?_
  exact length_trim_lt_append [] (exists_mem_slice hstart h)

/-- Cut at later positions only, a text begins with a longer piece. -/
theorem cutAt_first {cuts : List Nat} (hle : start ≤ i) (hblank : ¬ Blank (text.drop i))
    (hcuts : ∀ j ∈ cuts, i < j ∧ text[j - 1]?.any (fun c => !isWhitespace c) = true) :
    ∃ t ts, cutAt text cuts start = t :: ts ∧
      (Text.trimmingCharacters ((text.take i).drop start)).length < t.length := by
  cases cuts with
  | nil =>
    have hmore : ∃ c ∈ text.drop i, isWhitespace c = false := by
      by_contra hnone
      exact hblank fun c hc => by simpa using fun h => hnone ⟨c, hc, h⟩
    have hlt := length_trim_lt_append ((text.take i).drop start) hmore
    rw [← drop_eq_slice_append hle] at hlt
    exact ⟨_, [], nonEmpty_of_length_pos (Nat.zero_lt_of_lt hlt), hlt⟩
  | cons j cuts =>
    obtain ⟨hij, hj⟩ := hcuts j List.mem_cons_self
    have hlt := length_trim_lt_append ((text.take i).drop start) (exists_mem_slice hij hj)
    have hslice := drop_eq_slice_append (t := text.take j) hle
    rw [List.take_take, Nat.min_eq_left hij.le] at hslice
    rw [← hslice] at hlt
    rw [cutAt, nonEmpty_of_length_pos (t := Text.trimmingCharacters _) (Nat.zero_lt_of_lt hlt)]
    exact ⟨_, _, rfl, hlt⟩

/-- Cut or not at a position, where cuts behind it are left as they are: the
text is the same only if nothing follows. -/
theorem cutAt_cons_ne {cuts cuts' : List Nat} (hstart : start < i)
    (hi : text[i - 1]?.any (fun c => !isWhitespace c) = true) (hblank : ¬ Blank (text.drop i))
    (hcuts : ∀ j ∈ cuts', i < j ∧ text[j - 1]?.any (fun c => !isWhitespace c) = true) :
    cutAt text (i :: cuts) start ≠ cutAt text cuts' start := by
  obtain ⟨t, ts, he, hlt⟩ := cutAt_first hstart.le hblank hcuts
  rw [cutAt, nonEmpty_slice hstart hi, he]
  intro h
  rw [(List.cons.inj h).1] at hlt
  exact Nat.lt_irrefl _ hlt

theorem cutAt_last (hle : start ≤ i) (hblank : Blank (text.drop i)) : cutAt text [i] start = cutAt text [] start := by
  have hnil := trimmingCharacters_eq_nil_iff.mpr hblank
  rw [cutAt, cutAt, cutAt, hnil, drop_eq_slice_append (t := text) hle, Text.trimmingCharacters,
    Text.trimmingCharacters, trim_append_of_all _ hblank]
  exact List.append_nil _

/-- Behind each of the positions comes a later one, behind a character that is
no whitespace. -/
def RunsFrom (text : Text) (start : Nat) (runs : List Nat) : Prop :=
  runs.Pairwise (· < ·) ∧ ∀ i ∈ runs, start < i ∧ text[i - 1]?.any (fun c => !isWhitespace c) = true

theorem RunsFrom.tail {runs : List Nat} (h : RunsFrom text start (i :: runs)) :
    RunsFrom text start runs ∧ RunsFrom text i runs := by
  obtain ⟨hafter, hsorted⟩ := List.pairwise_cons.mp h.1
  have hall := (List.forall_mem_cons.mp h.2).2
  exact ⟨⟨hsorted, hall⟩, hsorted, fun j hj => ⟨hafter j hj, (hall j hj).2⟩⟩

/-- Nothing follows, so there is no later run. -/
theorem RunsFrom.eq_nil {runs : List Nat} (h : RunsFrom text i runs) (hblank : Blank (text.drop i)) : runs = [] := by
  cases runs with
  | nil => rfl
  | cons j runs =>
    obtain ⟨hij, hj⟩ := h.2 j List.mem_cons_self
    obtain ⟨c, hc, hspace⟩ := exists_mem_slice hij hj
    have hmem : c ∈ text.drop i := by
      rw [List.drop_take] at hc
      exact List.mem_of_mem_take hc
    rw [hblank c hmem] at hspace
    cases hspace

/-- Cut at different runs, texts are the same exactly if the runs that more
text follows are. -/
theorem cutAt_filter_eq_iff {P Q : Nat → Bool} {runs : List Nat} (h : RunsFrom text start runs) :
    cutAt text (runs.filter P) start = cutAt text (runs.filter Q) start ↔
      ∀ i ∈ runs, ¬ Blank (text.drop i) → P i = Q i := by
  induction runs generalizing start with
  | nil => exact iff_of_true rfl fun i hi => by cases hi
  | cons i runs ih =>
    obtain ⟨hi, hspace⟩ := h.2 i List.mem_cons_self
    obtain ⟨hhere, hbehind⟩ := h.tail
    have hlater (R : Nat → Bool) : ∀ j ∈ runs.filter R, i < j ∧ text[j - 1]?.any (fun c => !isWhitespace c) = true :=
      fun j hj => hbehind.2 j (List.mem_of_mem_filter hj)
    rw [List.forall_mem_cons]
    by_cases hblank : Blank (text.drop i)
    · -- the last run, which is cut at or not
      obtain rfl := hbehind.eq_nil hblank
      have hsame (R : Nat → Bool) : cutAt text ([i].filter R) start = cutAt text [] start := by
        rw [List.filter_singleton]
        cases R i with
        | true => exact cutAt_last hi.le hblank
        | false => rfl
      rw [hsame P, hsame Q]
      exact iff_of_true rfl ⟨fun hmore => absurd hblank hmore, fun j hj => by cases hj⟩
    · cases hP : P i <;> cases hQ : Q i
      · rw [List.filter_cons_of_neg (by simp [hP]), List.filter_cons_of_neg (by simp [hQ]), ih hhere]
        simp
      · rw [List.filter_cons_of_neg (by simp [hP]), List.filter_cons_of_pos hQ]
        exact iff_of_false (cutAt_cons_ne hi hspace hblank (hlater P)).symm fun h => Bool.false_ne_true (h.1 hblank)
      · rw [List.filter_cons_of_pos hP, List.filter_cons_of_neg (by simp [hQ])]
        exact iff_of_false (cutAt_cons_ne hi hspace hblank (hlater Q)) fun h => Bool.false_ne_true (h.1 hblank).symm
      · rw [List.filter_cons_of_pos hP, List.filter_cons_of_pos hQ, cutAt, cutAt, List.append_cancel_left_eq,
          ih hbehind]
        simp

/-- The runs but one that the text begins with. -/
theorem runsFrom_filter (text : Text) : RunsFrom text 0 ((whitespaceRuns text).filter (0 < ·)) := by
  refine ⟨(List.pairwise_lt_range.filter _).filter _, fun i hi => ?_⟩
  obtain ⟨hrun, hpos⟩ := List.mem_filter.mp hi
  have hspace := (List.mem_filter.mp hrun).2
  rw [decide_eq_true_eq] at hpos
  simp only [Bool.and_eq_true, Bool.or_eq_true, beq_iff_eq] at hspace
  exact ⟨hpos, hspace.2.resolve_left (by omega)⟩

theorem filter_whitespaceRuns {P : Nat → Bool} (hP : P 0 = false) :
    (whitespaceRuns text).filter P = ((whitespaceRuns text).filter (0 < ·)).filter P := by
  rw [List.filter_filter]
  refine List.filter_congr fun i _ => ?_
  cases i with
  | zero => rw [hP, Bool.false_and]
  | succ i => simp

/-- Sentences that end at different runs, behind the beginning of the text. -/
theorem sentencesAt_filter_eq_iff {P Q : Nat → Bool} (hP : P 0 = false) (hQ : Q 0 = false) :
    sentencesAt text ((whitespaceRuns text).filter P) = sentencesAt text ((whitespaceRuns text).filter Q) ↔
      ∀ i ∈ whitespaceRuns text, ¬ Blank (text.drop i) → P i = Q i := by
  have hruns := runsFrom_filter text
  by_cases hblank : Blank text
  · rw [filter_whitespaceRuns hP, filter_whitespaceRuns hQ, hruns.eq_nil hblank]
    exact iff_of_true rfl fun i _ hmore => absurd (fun c hc => hblank c (List.mem_of_mem_drop hc)) hmore
  · have hcut {R : Nat → Bool} (hR : R 0 = false) : sentencesAt text ((whitespaceRuns text).filter R) =
        cutAt text (((whitespaceRuns text).filter (0 < ·)).filter R) 0 := by
      have hbehind : ∀ j ∈ ((whitespaceRuns text).filter (0 < ·)).filter R,
          0 < j ∧ text[j - 1]?.any (fun c => !isWhitespace c) = true :=
        fun j hj => hruns.2 j (List.mem_of_mem_filter hj)
      obtain ⟨t, ts, he, -⟩ := cutAt_first (Nat.le_refl 0) hblank hbehind
      rw [sentencesAt, filter_whitespaceRuns hR, he]
      rfl
    rw [hcut hP, hcut hQ, cutAt_filter_eq_iff hruns]
    constructor
    · intro h i hi hmore
      cases i with
      | zero => rw [hP, hQ]
      | succ i => exact h (i + 1) (List.mem_filter.mpr ⟨hi, by simp⟩) hmore
    · exact fun h i hi => h i (List.mem_of_mem_filter hi)

/-! ## What the service takes for an abbreviation -/

/-- Initials of two or more letters, with one more full stop. -/
def hasExtraDot (token : Text) : Bool := token.getLast? == some '.' && (letterDots token.dropLast).any (2 ≤ ·)

theorem length_of_letterDots {token : Text} {n : Nat} (h : letterDots token = some n) : token.length = 2 * n := by
  induction token using letterDots.induct generalizing n with
  | case1 =>
    cases h
    rfl
  | case2 c => cases h
  | case3 c d rest hcd ih =>
    rw [letterDots, if_pos hcd] at h
    obtain ⟨k, hk, rfl⟩ := Option.map_eq_some_iff.mp h
    have := ih hk
    simp only [List.length_cons]
    omega
  | case4 c d rest hcd =>
    rw [letterDots, if_neg hcd] at h
    cases h

theorem letterDots_append_dot {token : Text} (h : hasExtraDot token = true) : letterDots token = none := by
  simp only [hasExtraDot, Bool.and_eq_true] at h
  obtain ⟨n, hn, -⟩ := (Option.any_eq_true _ _).mp h.2
  have hlen := length_of_letterDots hn
  rw [List.length_dropLast] at hlen
  cases hall : letterDots token with
  | none => rfl
  | some k =>
    have := length_of_letterDots hall
    have hne : token ≠ [] := by
      rintro rfl
      simp at h
    have := List.length_pos_of_ne_nil hne
    omega

theorem not_hasExtraDot_of_known {token : Text} (h : isKnownAbbreviation token = true) : hasExtraDot token = false := by
  have hall : ∀ a ∈ knownAbbreviations.map String.toList, hasExtraDot a = false := by decide
  exact hall token (List.contains_iff_mem.mp h)

theorem letterDots_cons (c d : Char) (rest : Text) : letterDots (c :: d :: rest) =
    if isLatinLower c && d == '.' then (letterDots rest).map (· + 1) else none := rfl

/-- The pattern matches initials of three letters and more, and initials with
one more full stop. -/
theorem matchesInitials_eq (n : Nat) (token : Text) : matchesInitials n token =
    ((letterDots token).any (fun k => decide (1 ≤ k) && decide (3 ≤ n + k)) ||
      token.getLast? == some '.' && (letterDots token.dropLast).any fun k => decide (2 ≤ n + k)) := by
  induction n, token using matchesInitials.induct with
  | case1 n c d rest ih =>
    rw [matchesInitials, ih, letterDots_cons]
    cases rest with
    | nil => cases isLatinLower c && d == '.' <;> simp [letterDots]
    | cons e rest =>
      have hpos : ∀ k, letterDots (e :: rest) = some k → 1 ≤ k := fun k hk => by
        have := length_of_letterDots hk
        simp only [List.length_cons] at this
        omega
      have hlast : (c :: d :: e :: rest).getLast? = (e :: rest).getLast? := by
        rw [List.getLast?_cons_cons, List.getLast?_cons_cons]
      have hdrop : (c :: d :: e :: rest).dropLast = c :: d :: (e :: rest).dropLast := rfl
      rw [hlast, hdrop, letterDots_cons]
      cases isLatinLower c && d == '.' with
      | false => simp
      | true =>
        simp only [if_true, Bool.true_and, List.isEmpty_cons, Bool.false_and, Bool.or_false, Option.any_map,
          Nat.add_assoc, Nat.add_comm 1]
        congr 1
        cases hdots : letterDots (e :: rest) with
        | none => rfl
        | some k => simp [hpos k hdots]
  | case2 n c => simp [matchesInitials, letterDots]
  | case3 n => simp [matchesInitials, letterDots]

/-! ## Which runs are judged as they are to be -/

/-- Initials of two letters are known, there is no full stop too many, and
where the run begins with whitespace that the pattern does not match, no
sentence is to end. -/
def WellJudged (U : Unicode) (text : Text) (i : Nat) : Prop :=
  let token := U.lowercased (trailingToken text i)
  behindTerminator text i = true →
    if text[i]?.any isRegexSpace then
      text[i - 1]? = some '.' →
        (letterDots token = some 2 → isKnownAbbreviation token = true) ∧ hasExtraDot token = false
    else text[i - 1]? = some '.' ∧ abbreviates U text i = true

theorem eq_of_letterDots_eq_one {token : Text} (h : letterDots token = some 1) : ∃ c, token = [c, '.'] := by
  match token, length_of_letterDots h with
  | [c, d], _ =>
    rw [letterDots_cons] at h
    split at h
    case isTrue hcd =>
      simp only [Bool.and_eq_true, beq_iff_eq] at hcd
      exact ⟨c, by rw [hcd.2]⟩
    case isFalse => cases h

theorem shouldIgnoreSentenceBoundary_of_dot (h0 : 0 < i) (hdot : text[i - 1]? = some '.') :
    shouldIgnoreSentenceBoundary U text i =
      (isKnownAbbreviation (U.lowercased (trailingToken text i)) ||
        matchesInitials 0 (U.lowercased (trailingToken text i)) ||
        letterDots (U.lowercased (trailingToken text i)) == some 1 &&
          (firstNonWhitespaceCharacter text i).any U.isLowercase) := by
  unfold shouldIgnoreSentenceBoundary
  rw [if_neg (by omega), if_pos hdot]
  generalize U.lowercased (trailingToken text i) = token
  generalize firstNonWhitespaceCharacter text i = next
  dsimp only
  split
  case isTrue h =>
    rw [List.isEmpty_iff.mp h]
    rfl
  case isFalse =>
    rw [← isKnownAbbreviation]
    cases isKnownAbbreviation token with
    | true => rfl
    | false =>
      cases matchesInitials 0 token with
      | true => rfl
      | false =>
        simp only [Bool.false_eq_true, if_false, Bool.false_or]
        split
        case h_1 c next _ => cases hc : isLatinLower c <;> simp [letterDots, hc]
        case h_2 hother =>
          cases hone : letterDots token == some 1 with
          | false => rfl
          | true =>
            obtain ⟨c, hc⟩ := eq_of_letterDots_eq_one (beq_iff_eq.mp hone)
            cases next with
            | none => rfl
            | some next => exact absurd rfl (hother c next hc)

theorem shouldIgnoreSentenceBoundary_of_ne (hdot : text[i - 1]? ≠ some '.') :
    shouldIgnoreSentenceBoundary U text i = false := by
  unfold shouldIgnoreSentenceBoundary
  rw [if_neg hdot, ite_self]

/-- Behind a full stop, the token before it decides. -/
theorem judged_of_dot (space lower : Bool) (token : Text) :
    (space && !(isKnownAbbreviation token || matchesInitials 0 token || letterDots token == some 1 && lower)) =
        !(isKnownAbbreviation token || (letterDots token).any (2 ≤ ·) || letterDots token == some 1 && lower) ↔
      if space then (letterDots token = some 2 → isKnownAbbreviation token = true) ∧ hasExtraDot token = false
      else
        (isKnownAbbreviation token || (letterDots token).any (2 ≤ ·) || letterDots token == some 1 && lower) = true := by
  have hextra : matchesInitials 0 token = ((letterDots token).any (3 ≤ ·) || hasExtraDot token) := by
    rw [matchesInitials_eq, hasExtraDot]
    simp only [Nat.zero_add]
    congr 2
    funext k
    rw [← Bool.decide_and]
    exact decide_eq_decide.mpr (by omega)
  rw [hextra]
  cases hknown : isKnownAbbreviation token with
  | true => cases space <;> simp [not_hasExtraDot_of_known hknown]
  | false =>
    cases hdot : hasExtraDot token with
    | true => cases space <;> simp [letterDots_append_dot hdot]
    | false =>
      cases letterDots token with
      | none => cases space <;> simp
      | some n =>
        -- the two judgements differ on initials of two letters only
        obtain hn | rfl | hn := lt_trichotomy n 2
        · cases space <;> simp [show ¬ 3 ≤ n by omega, show ¬ 2 ≤ n by omega, hn.ne]
        · cases space <;> simp
        · cases space <;> simp [show 3 ≤ n by omega, show 2 ≤ n by omega, hn.ne']

/-- A run is judged as it is to be exactly in these cases. -/
theorem wellJudged_iff : WellJudged U text i ↔
    (isBoundary text i && !shouldIgnoreSentenceBoundary U text i) = endsSentence U text i := by
  unfold WellJudged isBoundary endsSentence abbreviates
  dsimp only
  cases hterminator : behindTerminator text i with
  | false => simp
  | true =>
    have h0 : 0 < i := by
      simp only [behindTerminator, Bool.and_eq_true, decide_eq_true_eq] at hterminator
      exact hterminator.1
    by_cases hdot : text[i - 1]? = some '.'
    · rw [shouldIgnoreSentenceBoundary_of_dot h0 hdot, hdot]
      simpa using (judged_of_dot (text[i]?.any isRegexSpace) ((firstNonWhitespaceCharacter text i).any U.isLowercase)
        (U.lowercased (trailingToken text i))).symm
    · have hother : (text[i - 1]? == some '.') = false := beq_eq_false_iff_ne.mpr hdot
      rw [shouldIgnoreSentenceBoundary_of_ne hdot, hother]
      simp [hdot]

/-- The service ends sentences at runs only. -/
theorem sentenceEnds_eq (U : Unicode) (text : Text) : sentenceEnds U text =
    (whitespaceRuns text).filter fun i => isBoundary text i && !shouldIgnoreSentenceBoundary U text i := by
  rw [sentenceEnds, whitespaceRuns, List.filter_filter]
  refine List.filter_congr fun i _ => ?_
  cases hboundary : isBoundary text i with
  | false => rfl
  | true =>
    simp only [isBoundary, behindTerminator, Bool.and_eq_true] at hboundary
    obtain ⟨⟨-, hterminator⟩, hspace⟩ := hboundary
    obtain ⟨prev, hprev, hterminator⟩ := (Option.any_eq_true _ _).mp hterminator
    obtain ⟨c, hc, hspace⟩ := (Option.any_eq_true _ _).mp hspace
    simp [hprev, hc, isWhitespace_of_isTerminator hterminator, isWhitespace_of_isRegexSpace hspace]

/-- For every text: sentences end where they are to, exactly if each run that
more text follows is judged as it is to be. -/
theorem splitIntoSentences_iff (U : Unicode) (text : Text) :
    SplitsAtEnds U text ↔ ∀ i ∈ whitespaceRuns text, ¬ Blank (text.drop i) → WellJudged U text i := by
  rw [SplitsAtEnds, splitIntoSentences_eq, sentenceEnds_eq, sentencesAt_filter_eq_iff (by rfl) (by rfl)]
  exact forall_congr' fun i => forall_congr' fun _ => forall_congr' fun _ => wellJudged_iff.symm

/-- Initials of two letters that are not known: the sentence ends behind them. -/
theorem not_splitsAtEnds_initials : ¬ SplitsAtEnds .ascii "We open at 9 a.m. on weekdays.".toList := by
  decide +kernel

end SynapsNotes.Knowledge
