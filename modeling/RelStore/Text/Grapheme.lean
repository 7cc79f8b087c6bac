import RelStore.Text.Grapheme.Tables

/-!
# Grapheme clusters

What a reader takes for one character may be written with several: a letter with its accents,
a syllable, a flag, a family joined from pictures. Such characters form a cluster. A cluster
grows character by character as long as the next one joins it (`joins`). `flatten_clusters` says
that the clusters of a text are the text, and `ne_nil_of_mem_clusters` that none is empty.
-/

namespace RelStore.Text.Grapheme

/-- What decides how a character joins its neighbours. -/
inductive JoinClass where
  | carriageReturn
  | lineFeed
  | control
  | linker
  | extending
  /-- The zero width non-joiner, which extends but does not continue a conjunct. -/
  | nonJoiner
  /-- The zero width joiner. -/
  | joiner
  | spacingMark
  | prepended
  | regional
  | pictograph
  | consonant
  | leading
  | vowel
  | trailing
  /-- A Hangul syllable that ends with its vowel. -/
  | openSyllable
  /-- A Hangul syllable that ends with a consonant. -/
  | closedSyllable
  | other
deriving DecidableEq

/-- The class of a Hangul syllable: every twenty-eighth ends with its vowel. -/
def syllableClass (code : Nat) : JoinClass :=
  if (code - 0xac00) % 28 = 0 then .openSyllable else .closedSyllable

/-- The classes of the tables. -/
def tableClasses : List (CharTable × JoinClass) := [
  (controls, .control), (linkers, .linker), (consonants, .consonant), (prepended, .prepended),
  (spacingMarks, .spacingMark), (extending, .extending), (pictographs, .pictograph),
  (leadingJamo, .leading), (vowelJamo, .vowel), (trailingJamo, .trailing)]

/-- The class of a character. -/
def joinClass (c : Char) : JoinClass :=
  if c = '\r' then .carriageReturn
  else if c = '\n' then .lineFeed
  else if 0x20 ≤ c.toNat ∧ c.toNat < 0x7f then .other
  else if c.toNat = 0x200c then .nonJoiner
  else if c.toNat = 0x200d then .joiner
  else if 0x1f1e6 ≤ c.toNat ∧ c.toNat ≤ 0x1f1ff then .regional
  else if 0xac00 ≤ c.toNat ∧ c.toNat ≤ 0xd7a3 then syllableClass c.toNat
  else match tableClasses.find? (·.1.contains c.toNat) with
    | some (_, found) => found
    | none => .other

/-- Whether a cluster, the last character first, ends with a consonant and marks that can stand
within a conjunct, a linker among them or `linked` behind them. -/
def endsLinked (linked : Bool) : List Char → Bool
  | [] => false
  | c :: earlier =>
    match joinClass c with
    | .linker => endsLinked true earlier
    | .extending | .joiner => endsLinked linked earlier
    | .consonant => linked
    | _ => false

/-- Whether a cluster, the last character first, ends with a picture and marks on it. -/
def endsPictured : List Char → Bool
  | [] => false
  | c :: earlier =>
    match joinClass c with
    | .linker | .extending | .nonJoiner => endsPictured earlier
    | .pictograph => true
    | _ => false

/-- Whether a cluster, the last character first, ends with the first half of a flag. -/
def endsHalfFlag (cluster : List Char) : Bool :=
  (cluster.takeWhile (joinClass · = .regional)).length % 2 = 1

/-- Whether a character joins a cluster, the last character of which comes first. -/
def joins : List Char → Char → Bool
  | [], _ => false
  | last :: earlier, c =>
    match joinClass last, joinClass c with
    | .carriageReturn, .lineFeed => true
    | .control, _ | .carriageReturn, _ | .lineFeed, _ => false
    | _, .control | _, .carriageReturn | _, .lineFeed => false
    | .leading, .leading | .leading, .vowel => true
    | .leading, .openSyllable | .leading, .closedSyllable => true
    | .openSyllable, .vowel | .vowel, .vowel => true
    | .openSyllable, .trailing | .vowel, .trailing => true
    | .closedSyllable, .trailing | .trailing, .trailing => true
    | _, .linker | _, .extending | _, .nonJoiner | _, .joiner | _, .spacingMark => true
    | .prepended, _ => true
    | _, .consonant => endsLinked false (last :: earlier)
    | .joiner, .pictograph => endsPictured earlier
    | .regional, .regional => endsHalfFlag (last :: earlier)
    | _, _ => false

/-- The clusters of a text that goes on behind the beginning of a cluster, the last character
of which comes first. -/
def clustersFrom (begun : List Char) : List Char → List (List Char)
  | [] => [begun.reverse]
  | c :: rest =>
    if joins begun c then clustersFrom (c :: begun) rest
    else begun.reverse :: clustersFrom [c] rest

/-- The clusters of a text. -/
def clusters : List Char → List (List Char)
  | [] => []
  | c :: rest => clustersFrom [c] rest

theorem flatten_clustersFrom (begun text : List Char) :
    (clustersFrom begun text).flatten = begun.reverse ++ text := by
  fun_induction clustersFrom begun text with
  | case1 begun => simp
  | case2 begun c rest _ ih => simp [ih]
  | case3 begun c rest _ ih => simp [ih]

/-- Nothing is lost between clusters. -/
theorem flatten_clusters (text : List Char) : (clusters text).flatten = text := by
  cases text with
  | nil => rfl
  | cons c rest => simp [clusters, flatten_clustersFrom]

theorem ne_nil_of_mem_clustersFrom {begun text cluster : List Char} (hb : begun ≠ [])
    (h : cluster ∈ clustersFrom begun text) : cluster ≠ [] := by
  fun_induction clustersFrom begun text with
  | case1 begun => simp_all
  | case2 begun c rest _ ih => exact ih (by simp) h
  | case3 begun c rest _ ih =>
    rcases List.mem_cons.1 h with rfl | h
    · simpa using hb
    · exact ih (by simp) h

/-- No cluster is empty. -/
theorem ne_nil_of_mem_clusters {text cluster : List Char} (h : cluster ∈ clusters text) :
    cluster ≠ [] := by
  cases text with
  | nil => simp [clusters] at h
  | cons c rest => exact ne_nil_of_mem_clustersFrom (by simp) h

end RelStore.Text.Grapheme
