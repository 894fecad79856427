import SynapsNotes.Foundation.Search

/-!
# Special tokens in a prompt

Before a prompt is tokenized, `tokenizer_st_partition` of llama.cpp takes the
special tokens of the vocabulary out of it, one after the other, wherever
their text stands: in what the chat template has written as in what a message
says. Of a vocabulary whose special tokens are words in brackets it does not
matter in which order: nothing is lost (`text_fragments`), and the text before
and behind a special token is partitioned on its own (`fragments_append`).
-/

namespace SynapsNotes.Generation

open Framework Text

/-- `isspace`, in the C locale. -/
def isspace (c : Char) : Bool := c == ' ' || ('\t' ≤ c && c ≤ '\r')

/-- An entry of `cache_special_tokens`, by the attributes that matter here. -/
structure SpecialToken where
  id : Nat
  text : Text
  /-- `LLAMA_TOKEN_ATTR_CONTROL` or `LLAMA_TOKEN_ATTR_UNKNOWN`. -/
  isControl : Bool
  /-- `LLAMA_TOKEN_ATTR_LSTRIP`. -/
  lstrip : Bool
  /-- `LLAMA_TOKEN_ATTR_RSTRIP`. -/
  rstrip : Bool
  deriving DecidableEq

/-- `fragment_buffer_variant`. -/
inductive Fragment
  | token (special : SpecialToken)
  | rawText (text : Text)
  deriving DecidableEq

/-- A fragment of the text, if there is any. -/
def rawFragments (t : Text) : List Fragment := if t.isEmpty then [] else [.rawText t]

/-- The loop over a raw fragment. Each match makes it shorter, so its length
bounds the number of matches. -/
def splitRaw (special : SpecialToken) : Nat → Text → List Fragment
  | 0, t => rawFragments t
  | n + 1, t =>
    match splitFirst special.text t with
    | none => rawFragments t
    | some (left, right) =>
      rawFragments (if special.lstrip then left.rdropWhile isspace else left) ++
        .token special :: splitRaw special n (if special.rstrip then right.dropWhile isspace else right)

def splitFragment (special : SpecialToken) : Fragment → List Fragment
  | .token other => [.token other]
  | .rawText t => splitRaw special t.length t

/-- `tokenizer_st_partition`. -/
def tokenizerStPartition (cacheSpecialTokens : List SpecialToken) (parseSpecial : Bool) (buffer : List Fragment) :
    List Fragment :=
  cacheSpecialTokens.foldl (fun buffer special =>
    if !parseSpecial && special.isControl then buffer else buffer.flatMap (splitFragment special)) buffer

/-- The fragments of a prompt, which is tokenized with `parse_special`. -/
def fragments (cacheSpecialTokens : List SpecialToken) (prompt : Text) : List Fragment :=
  tokenizerStPartition cacheSpecialTokens true (rawFragments prompt)

def Fragment.text : Fragment → Text
  | .token special => special.text
  | .rawText t => t

/-- A special token in angle brackets that takes no space away around it. -/
structure SpecialToken.Plain (special : SpecialToken) : Prop where
  bracketed : Bracketed '<' '>' special.text
  lstrip : special.lstrip = false
  rstrip : special.rstrip = false

theorem text_rawFragments (t : Text) : (rawFragments t).flatMap Fragment.text = t := by
  cases t with
  | nil => rfl
  | cons c t => exact List.append_nil _

/-! ## One special token -/

section One

variable {special other : SpecialToken} {t x y before after : Text} (hs : special.Plain)

/-- A raw text, partitioned by one special token. -/
def cut (special : SpecialToken) (t : Text) : List Fragment := splitRaw special t.length t

theorem flatMap_rawFragments (special : SpecialToken) (t : Text) :
    (rawFragments t).flatMap (splitFragment special) = cut special t := by
  cases t with
  | nil => rfl
  | cons c t => exact List.append_nil _

include hs

theorem SpecialToken.Plain.marked : Marked '<' special.text :=
  ⟨_, hs.bracketed.eq_cons, hs.bracketed.head_once⟩

theorem splitRaw_of_le {n : Nat} (h : t.length ≤ n) : splitRaw special n t = cut special t := by
  induction n using Nat.strong_induction_on generalizing t with
  | _ n ih =>
    cases n with
    | zero =>
      rw [cut, Nat.le_zero.mp h]
    | succ n =>
      cases hlen : t.length with
      | zero =>
        obtain rfl := List.length_eq_zero_iff.mp hlen
        rw [splitRaw, (splitFirst_eq_none_iff hs.bracketed.ne_nil).mpr fun hi =>
          hs.bracketed.ne_nil (List.infix_nil.mp hi)]
        rfl
      | succ k =>
        rw [cut, hlen, splitRaw, splitRaw]
        cases hsplit : splitFirst special.text t with
        | none => rfl
        | some p =>
          have hpos := List.length_pos_of_ne_nil hs.bracketed.ne_nil
          have hp := congrArg List.length (eq_of_splitFirst hsplit)
          rw [List.length_append, List.length_append] at hp
          simp only [hs.rstrip, Bool.false_eq_true, ↓reduceIte]
          rw [ih n (Nat.lt_succ_self n) (by omega), ih k (by omega) (by omega)]

theorem cut_of_absent (h : ¬ special.text <:+: t) : cut special t = rawFragments t := by
  have hnone := (splitFirst_eq_none_iff hs.bracketed.ne_nil).mpr h
  rw [← splitRaw_of_le hs (Nat.le_succ t.length), splitRaw, hnone]

theorem cut_of_splitFirst (h : splitFirst special.text t = some (before, after)) :
    cut special t = rawFragments before ++ .token special :: cut special after := by
  have hlen := congrArg List.length (eq_of_splitFirst h)
  rw [List.length_append, List.length_append] at hlen
  rw [← splitRaw_of_le hs (Nat.le_succ t.length), splitRaw, h]
  simp only [hs.lstrip, hs.rstrip, Bool.false_eq_true, ↓reduceIte]
  rw [splitRaw_of_le hs (by omega)]

/-- What the token leaves of a text at its end goes on with what follows. -/
theorem exists_cut (x : Text) : ∃ l rest, ¬ special.text <:+: rest ∧
    ∀ y, cut special (x ++ y) = l ++ cut special (rest ++ y) := by
  induction x using splitFirst_induction hs.bracketed.ne_nil with
  | hnone x h => exact ⟨[], x, (splitFirst_eq_none_iff hs.bracketed.ne_nil).mp h, fun y => rfl⟩
  | hsome x before after h ih =>
    obtain ⟨l, rest, habsent, hcut⟩ := ih
    refine ⟨rawFragments before ++ .token special :: l, rest, habsent, fun y => ?_⟩
    rw [cut_of_splitFirst hs (splitFirst_append hs.marked h y), hcut, List.append_assoc, List.cons_append]

theorem cut_token (x y : Text) :
    cut special (x ++ (special.text ++ y)) = cut special x ++ .token special :: cut special y := by
  obtain ⟨l, rest, habsent, hcut⟩ := exists_cut hs x
  have hx := hcut []
  rw [List.append_nil, List.append_nil, cut_of_absent hs habsent] at hx
  rw [hcut, cut_of_splitFirst hs (splitFirst_of_absent hs.marked habsent y), hx, List.append_assoc]

/-- A text does not hold the token if its two parts do not, with another
token between them. -/
theorem not_infix_around (ho : other.Plain) (hne : special.text ≠ other.text) (hx : ¬ special.text <:+: x)
    (hy : ¬ special.text <:+: y) : ¬ special.text <:+: x ++ (other.text ++ y) := by
  have hother : ¬ special.text <:+: other.text := fun h =>
    hne (hs.bracketed.eq_of_prefix ho.bracketed (hs.marked.prefix_of_inside ho.marked List.prefix_rfl h))
  have hhead : (other.text ++ y).head? = some '<' := by
    rw [List.head?_append_of_ne_nil _ ho.bracketed.ne_nil, ho.bracketed.head]
  simp only [infix_append_iff_splits, hx, hy, hother, hs.bracketed.not_splits_of_head hhead,
    hs.bracketed.not_splits_of_last ho.bracketed.last, or_self, not_false_iff]

/-- Another token stays where it stands, in one raw fragment. -/
theorem cut_other (ho : other.Plain) (hne : special.text ≠ other.text) (x y : Text) :
    ∃ l x' y' r, cut special x = l ++ rawFragments x' ∧ cut special y = rawFragments y' ++ r ∧
      cut special (x ++ (other.text ++ y)) = l ++ rawFragments (x' ++ (other.text ++ y')) ++ r := by
  obtain ⟨l, x', habsent, hcut⟩ := exists_cut hs x
  have hx := hcut []
  rw [List.append_nil, List.append_nil, cut_of_absent hs habsent] at hx
  cases hsplit : splitFirst special.text y with
  | none =>
    have hy := (splitFirst_eq_none_iff hs.bracketed.ne_nil).mp hsplit
    refine ⟨l, x', y, [], hx, by rw [cut_of_absent hs hy, List.append_nil], ?_⟩
    rw [hcut, cut_of_absent hs (not_infix_around hs ho hne habsent hy), List.append_nil]
  | some p =>
    obtain ⟨y', after⟩ := p
    have hy' := not_infix_of_splitFirst hs.bracketed.ne_nil hsplit
    have hall : x' ++ (other.text ++ y) = (x' ++ (other.text ++ y')) ++ (special.text ++ after) := by
      rw [eq_of_splitFirst hsplit]
      simp only [List.append_assoc]
    refine ⟨l, x', y', .token special :: cut special after, hx, cut_of_splitFirst hs hsplit, ?_⟩
    rw [hcut, hall, cut_of_splitFirst hs
      (splitFirst_of_absent hs.marked (not_infix_around hs ho hne habsent hy') after), List.append_assoc]

/-- Nothing is lost. -/
theorem text_cut (t : Text) : (cut special t).flatMap Fragment.text = t := by
  induction t using splitFirst_induction hs.bracketed.ne_nil with
  | hnone t h => rw [cut_of_absent hs ((splitFirst_eq_none_iff hs.bracketed.ne_nil).mp h), text_rawFragments]
  | hsome t before after h ih =>
    rw [cut_of_splitFirst hs h, List.flatMap_append, List.flatMap_cons, ih, text_rawFragments, eq_of_splitFirst h,
      List.append_assoc]
    rfl

end One

/-! ## All of them -/

section Partition

variable {cache : List SpecialToken} {special : SpecialToken} {buffer : List Fragment} {t x y : Text}

theorem tokenizerStPartition_cons (special : SpecialToken) (cache : List SpecialToken) (buffer : List Fragment) :
    tokenizerStPartition (special :: cache) true buffer =
      tokenizerStPartition cache true (buffer.flatMap (splitFragment special)) := rfl

theorem tokenizerStPartition_append (cache : List SpecialToken) (b b' : List Fragment) :
    tokenizerStPartition cache true (b ++ b') =
      tokenizerStPartition cache true b ++ tokenizerStPartition cache true b' := by
  induction cache generalizing b b' with
  | nil => rfl
  | cons special cache ih => rw [tokenizerStPartition_cons, List.flatMap_append, ih]; rfl

theorem tokenizerStPartition_token (cache : List SpecialToken) (special : SpecialToken) :
    tokenizerStPartition cache true [.token special] = [.token special] := by
  induction cache with
  | nil => rfl
  | cons other cache ih => exact ih

theorem fragments_cons (special : SpecialToken) (cache : List SpecialToken) (t : Text) :
    fragments (special :: cache) t = tokenizerStPartition cache true (cut special t) := by
  rw [fragments, tokenizerStPartition_cons, flatMap_rawFragments]

variable (hcache : ∀ special ∈ cache, special.Plain)

include hcache

/-- Without the text of a special token a text stays as it is. -/
theorem fragments_of_absent (ht : '<' ∉ t) : fragments cache t = rawFragments t := by
  induction cache with
  | nil => rfl
  | cons special cache ih =>
    obtain ⟨hs, hcache⟩ := List.forall_mem_cons.mp hcache
    have habsent : ¬ special.text <:+: t := fun hi =>
      ht (hi.subset (hs.bracketed.eq_cons ▸ List.mem_cons_self))
    rw [fragments_cons, cut_of_absent hs habsent]
    exact ih hcache

/-- The texts of the fragments are the text. -/
theorem text_tokenizerStPartition (buffer : List Fragment) :
    (tokenizerStPartition cache true buffer).flatMap Fragment.text = buffer.flatMap Fragment.text := by
  induction cache generalizing buffer with
  | nil => rfl
  | cons special cache ih =>
    obtain ⟨hs, hcache⟩ := List.forall_mem_cons.mp hcache
    rw [tokenizerStPartition_cons, ih hcache, List.flatMap_assoc]
    refine List.flatMap_congr fun fragment _ => ?_
    cases fragment with
    | token other => exact List.append_nil _
    | rawText t => exact text_cut hs t

theorem text_fragments (t : Text) : (fragments cache t).flatMap Fragment.text = t := by
  rw [fragments, text_tokenizerStPartition hcache, text_rawFragments]

/-- Before a special token and behind it the text is partitioned on its own. -/
theorem fragments_append (hspecial : special ∈ cache)
    (hunique : ∀ other ∈ cache, other.text = special.text → other = special) (x y : Text) :
    fragments cache (x ++ (special.text ++ y)) = fragments cache x ++ .token special :: fragments cache y := by
  induction cache generalizing x y with
  | nil => cases hspecial
  | cons other cache ih =>
    obtain ⟨ho, hcache'⟩ := List.forall_mem_cons.mp hcache
    obtain ⟨hother, hunique'⟩ := List.forall_mem_cons.mp hunique
    have hs := hcache special hspecial
    rw [fragments_cons, fragments_cons, fragments_cons]
    by_cases heq : other = special
    · subst heq
      rw [cut_token ho, tokenizerStPartition_append, ← List.singleton_append, tokenizerStPartition_append,
        tokenizerStPartition_token]
      rfl
    · have hmem := (List.mem_cons.mp hspecial).resolve_left fun h => heq h.symm
      obtain ⟨l, x', y', r, hx, hy, hxy⟩ := cut_other ho hs (fun h => heq (hother h)) x y
      have hmiddle := ih hcache' hmem hunique' x' y'
      rw [fragments, fragments, fragments] at hmiddle
      rw [hxy, hx, hy]
      simp only [tokenizerStPartition_append, hmiddle, List.append_assoc, List.cons_append]

/-- A special token is among the fragments where its text stands. -/
theorem token_mem_fragments_iff (hspecial : special ∈ cache)
    (hunique : ∀ other ∈ cache, other.text = special.text → other = special) :
    .token special ∈ fragments cache t ↔ special.text <:+: t := by
  constructor
  · intro h
    obtain ⟨l, r, hl⟩ := List.append_of_mem h
    rw [← text_fragments hcache t, hl, List.flatMap_append, List.flatMap_cons]
    exact ⟨_, _, List.append_assoc _ _ _⟩
  · rintro ⟨x, y, rfl⟩
    rw [List.append_assoc, fragments_append hcache hspecial hunique]
    exact List.mem_append_right _ List.mem_cons_self

end Partition

end SynapsNotes.Generation
