/- source: none
  digest: Segments of slash-separated paths, path.Clean and the chain of path.Dir. -/

import BackImage.Go.Text

namespace BackImage.Go.Path

open Text

section Segments

variable {sep : UInt8}

theorem split_ne_nil (s : Str) : split sep s ≠ [] := by
 cases s with
 | nil => simp [split]
 | cons c rest =>
  rw [split]
  split
  · simp
  · split <;> simp

theorem exists_split_eq_cons (sep : UInt8) (s : Str) :
  ∃ first others, split sep s = first :: others :=
 List.exists_cons_of_ne_nil (split_ne_nil s)

theorem split_cons_of_ne {c : UInt8} (other : c ≠ sep) {rest first : Str} {others : List Str}
  (segments : split sep rest = first :: others) :
  split sep (c :: rest) = (c :: first) :: others := by
 rw [split, if_neg other, segments]

theorem split_sep_cons (rest : Str) : split sep (sep :: rest) = [] :: split sep rest := by
 rw [split, if_pos rfl]

variable {s : Str}

theorem split_append {rest first : Str} {others : List Str} (clean : sep ∉ s)
  (segments : split sep rest = first :: others) :
  split sep (s ++ rest) = (s ++ first) :: others := by
 induction s with
 | nil => exact segments
 | cons c s ih =>
  have other : c ≠ sep := fun same => clean (same ▸ List.mem_cons_self)
  exact split_cons_of_ne other (ih fun inside => clean (List.mem_cons_of_mem c inside))

theorem split_of_not_mem (clean : sep ∉ s) : split sep s = [s] := by
 have empty : split sep ([] : Str) = [] :: [] := rfl
 have whole := split_append clean empty
 rwa [List.append_nil] at whole

theorem split_append_sep (clean : sep ∉ s) (rest : Str) :
  split sep (s ++ sep :: rest) = s :: split sep rest := by
 have opened : split sep (sep :: rest) = [] :: split sep rest := split_sep_cons rest
 have whole := split_append clean opened
 rwa [List.append_nil] at whole

theorem join_cons (s : Str) {rest : List Str} (more : rest ≠ []) :
  join sep (s :: rest) = s ++ sep :: join sep rest := by
 cases rest with
 | nil => exact absurd rfl more
 | cons t rest => rfl

theorem join_split (s : Str) : join sep (split sep s) = s := by
 induction s with
 | nil => rfl
 | cons c rest ih =>
  obtain ⟨first, others, segments⟩ := exists_split_eq_cons sep rest
  by_cases same : c = sep
  · subst same
    rw [split_sep_cons, join_cons _ (split_ne_nil rest), ih]
    rfl
  · rw [split_cons_of_ne same segments]
    rw [segments] at ih
    cases others with
    | nil =>
     change c :: first = c :: rest
     exact congrArg (c :: ·) ih
    | cons t others =>
     rw [join_cons _ (List.cons_ne_nil t others)] at ih ⊢
     rw [List.cons_append, ih]

theorem split_join {segments : List Str} (some_segment : segments ≠ [])
  (clean : ∀ s ∈ segments, sep ∉ s) : split sep (join sep segments) = segments := by
 induction segments with
 | nil => exact absurd rfl some_segment
 | cons s rest ih =>
  have head := clean s List.mem_cons_self
  cases rest with
  | nil => exact split_of_not_mem head
  | cons t rest =>
   rw [join_cons _ (List.cons_ne_nil t rest), split_append_sep head,
    ih (List.cons_ne_nil t rest) fun x member => clean x (List.mem_cons_of_mem s member)]

theorem not_mem_of_mem_split {seg : Str} (member : seg ∈ split sep s) : sep ∉ seg := by
 induction s generalizing seg with
 | nil =>
  have empty : seg = [] := by simpa [split] using member
  simp [empty]
 | cons c rest ih =>
  obtain ⟨first, others, segments⟩ := exists_split_eq_cons sep rest
  by_cases same : c = sep
  · subst same
    rw [split_sep_cons] at member
    rcases List.mem_cons.mp member with rfl | later
    · exact List.not_mem_nil
    · exact ih later
  · rw [split_cons_of_ne same segments] at member
    rw [segments] at ih
    rcases List.mem_cons.mp member with rfl | later
    · have tail := ih List.mem_cons_self
      intro inside
      rcases List.mem_cons.mp inside with equal | deeper
      · exact same equal.symm
      · exact tail deeper
    · exact ih (List.mem_cons_of_mem first later)

theorem mem_of_mem_split {seg : Str} {c : UInt8} (member : seg ∈ split sep s) (inside : c ∈ seg) :
  c ∈ s := by
 induction s generalizing seg with
 | nil =>
  have empty : seg = [] := by simpa [split] using member
  rw [empty] at inside
  cases inside
 | cons d rest ih =>
  obtain ⟨first, others, segments⟩ := exists_split_eq_cons sep rest
  by_cases same : d = sep
  · rw [same, split_sep_cons] at member
    rcases List.mem_cons.mp member with rfl | later
    · cases inside
    · exact List.mem_cons_of_mem d (ih later inside)
  · rw [split_cons_of_ne same segments] at member
    rw [segments] at ih
    rcases List.mem_cons.mp member with rfl | later
    · rcases List.mem_cons.mp inside with rfl | deeper
      · exact List.mem_cons_self
      · exact List.mem_cons_of_mem d (ih List.mem_cons_self deeper)
    · exact List.mem_cons_of_mem d (ih (List.mem_cons_of_mem first later) inside)

theorem split_injective : Function.Injective (split sep) := by
 intro s t same
 rw [← join_split s, ← join_split t, same]

theorem split_append_sep_append (s rest : Str) :
  split sep (s ++ sep :: rest) = split sep s ++ split sep rest := by
 induction s with
 | nil => exact split_sep_cons rest
 | cons c s ih =>
  obtain ⟨first, others, segments⟩ := exists_split_eq_cons sep s
  by_cases same : c = sep
  · rw [same, List.cons_append, split_sep_cons, split_sep_cons, ih]
    rfl
  · rw [segments, List.cons_append] at ih
    rw [List.cons_append, split_cons_of_ne same ih, split_cons_of_ne same segments]
    rfl

end Segments

def dot : Str := [46]
def dotDot : Str := [46, 46]

def cleanStep (rooted : Bool) (kept : List Str) (seg : Str) : List Str :=
 if seg = [] ∨ seg = dot then kept
 else if seg = dotDot then
  match kept with
  | [] => if rooted then [] else [dotDot]
  | top :: rest => if top = dotDot then dotDot :: kept else rest
 else seg :: kept

def clean (p : Str) : Str :=
 if p = [] then dot
 else
  let rooted := p.head? = some slash
  let kept := ((split slash p).foldl (cleanStep rooted) []).reverse
  if rooted then slash :: join slash kept
  else if kept = [] then dot else join slash kept

def dirPart (p : Str) : Str := (p.reverse.dropWhile (· ≠ slash)).reverse

def dir (p : Str) : Str := clean (dirPart p)

def base (p : Str) : Str :=
 if p = [] then dot
 else
  let last := ((p.reverse.dropWhile (· = slash)).takeWhile (· ≠ slash)).reverse
  if last = [] then [slash] else last

def joinPath (directory name : Str) : Str := clean (directory ++ slash :: name)

def dirsFuel : Nat → Str → List Str
 | 0, _ => []
 | fuel + 1, p =>
  let d := dir p
  if d = dot ∨ d = [slash] then [] else d :: dirsFuel fuel d

def dirs (p : Str) : List Str := dirsFuel p.length p

/-! ### The chain ends

Every `path.Dir` that is not `.` or `/` is shorter than its path: the separator after the last
segment kept is dropped. -/

def weight (segments : List Str) : Nat := (segments.map fun s => s.length + 1).sum

def solidWeight (segments : List Str) : Nat := weight (segments.filter (· ≠ []))

theorem weight_cons (s : Str) (rest : List Str) :
  weight (s :: rest) = s.length + 1 + weight rest := by
 simp [weight]

theorem weight_split (s : Str) : weight (split slash s) = s.length + 1 := by
 induction s with
 | nil => rfl
 | cons c rest ih =>
  obtain ⟨first, others, segments⟩ := exists_split_eq_cons slash rest
  by_cases same : c = slash
  · rw [same, split_sep_cons, weight_cons, ih]
    simp only [List.length_nil, List.length_cons]
    omega
  · rw [split_cons_of_ne same segments]
    rw [segments, weight_cons] at ih
    rw [weight_cons]
    simp only [List.length_cons]
    omega

theorem solidWeight_le (segments : List Str) : solidWeight segments ≤ weight segments := by
 induction segments with
 | nil => exact Nat.le_refl _
 | cons s rest ih =>
  unfold solidWeight at ih ⊢
  rw [List.filter_cons, weight_cons]
  split
  · rw [weight_cons]
    omega
  · omega

variable {segments : List Str}

theorem length_join (some_segment : segments ≠ []) :
  (join slash segments).length + 1 = weight segments := by
 induction segments with
 | nil => exact absurd rfl some_segment
 | cons s rest ih =>
  cases rest with
  | nil => simp [join, joinWith, weight]
  | cons t rest =>
   have tail := ih (List.cons_ne_nil t rest)
   rw [join_cons _ (List.cons_ne_nil t rest), weight_cons, List.length_append, List.length_cons]
   omega

theorem weight_cleanStep (rooted : Bool) (kept : List Str) (seg : Str) :
  weight (cleanStep rooted kept seg) ≤ weight kept + solidWeight [seg] := by
 unfold cleanStep
 split
 · omega
 · rename_i solid
   have own : solidWeight [seg] = seg.length + 1 := by
    have filled : seg ≠ [] := fun empty => solid (.inl empty)
    simp [solidWeight, weight, filled]
   split
   · rename_i up
     have three : seg.length + 1 = 3 := by rw [up]; rfl
     split
     · split
       · exact Nat.zero_le _
       · have grown : weight [dotDot] = 3 := rfl
         omega
     · rename_i top rest
       split
       · have grown : weight (dotDot :: top :: rest) = 3 + weight (top :: rest) := weight_cons _ _
         omega
       · rw [weight_cons]
         omega
   · rw [weight_cons]
     omega

theorem weight_foldl_cleanStep (rooted : Bool) (segments kept : List Str) :
  weight (segments.foldl (cleanStep rooted) kept) ≤ weight kept + solidWeight segments := by
 induction segments generalizing kept with
 | nil => exact Nat.le_add_right _ _
 | cons s rest ih =>
  have step := weight_cleanStep rooted kept s
  have later := ih (cleanStep rooted kept s)
  have split : solidWeight (s :: rest) = solidWeight [s] + solidWeight rest := by
   unfold solidWeight
   by_cases empty : s = [] <;> simp [weight, empty]
  rw [List.foldl_cons]
  omega

theorem weight_reverse (segments : List Str) : weight segments.reverse = weight segments := by
 simp [weight, List.sum_reverse]

theorem split_concat_slash (s : Str) : split slash (s ++ [slash]) = split slash s ++ [[]] := by
 induction s with
 | nil => rfl
 | cons c rest ih =>
  obtain ⟨first, others, segments⟩ := exists_split_eq_cons slash rest
  by_cases same : c = slash
  · rw [same, List.cons_append, split_sep_cons, split_sep_cons, ih]
    rfl
  · rw [segments] at ih
    rw [List.cons_append, split_cons_of_ne same ih, split_cons_of_ne same segments]
    rfl

theorem length_clean_concat_slash (r : Str) : clean (r ++ [slash]) = dot ∨
  clean (r ++ [slash]) = [slash] ∨
   (clean (r ++ [slash])).length < r.length + 1 := by
 have segments : solidWeight (split slash (r ++ [slash])) = solidWeight (split slash r) := by
  rw [split_concat_slash]
  simp [solidWeight]
 have nonempty : r ++ [slash] ≠ [] := by simp
 unfold clean
 rw [if_neg nonempty]
 dsimp only
 by_cases rooted : (r ++ [slash]).head? = some slash
 · simp only [rooted, decide_true, if_true]
   have bound := weight_foldl_cleanStep true (split slash (r ++ [slash])) []
   generalize (split slash (r ++ [slash])).foldl (cleanStep true) [] = kept at bound
   cases r with
   | nil =>
    have nothing : weight kept ≤ 0 := by
     rw [segments] at bound
     exact bound
    have empty : kept = [] := by
     cases kept with
     | nil => rfl
     | cons s rest =>
      rw [weight_cons] at nothing
      omega
    rw [empty]
    exact .inr (.inl rfl)
   | cons c r =>
    have first : c = slash := by simpa using rooted
    subst first
    have rest : solidWeight (split slash (slash :: r)) = solidWeight (split slash r) := by
     rw [split_sep_cons]
     simp [solidWeight]
    have size := weight_split r
    have solid := solidWeight_le (split slash r)
    by_cases empty : kept = []
    · rw [empty]
      exact .inr (.inl rfl)
    · have some_kept : kept.reverse ≠ [] := by simpa using empty
      have joined := length_join some_kept
      rw [weight_reverse] at joined
      refine .inr (.inr ?_)
      simp only [List.length_cons]
      have zero : weight [] = 0 := rfl
      omega
 · simp only [rooted, decide_false, if_false]
   have bound := weight_foldl_cleanStep false (split slash (r ++ [slash])) []
   generalize (split slash (r ++ [slash])).foldl (cleanStep false) [] = kept at bound
   by_cases empty : kept.reverse = []
   · rw [if_pos empty]
     exact .inl rfl
   · rw [if_neg empty]
     have joined := length_join empty
     rw [weight_reverse] at joined
     have size := weight_split r
     have solid := solidWeight_le (split slash r)
     have zero : weight [] = 0 := rfl
     refine .inr (.inr ?_)
     omega

theorem dirPart_cases (p : Str) : dirPart p = [] ∨ ∃ r, dirPart p = r ++ [slash] ∧
  r.length + 1 ≤ p.length := by
 have short : (p.reverse.dropWhile (· ≠ slash)).length ≤ p.length := by
  have sub :=
   (List.dropWhile_suffix (fun c : UInt8 => decide (c ≠ slash)) (l := p.reverse)).length_le
  rwa [List.length_reverse] at sub
 unfold dirPart
 cases left : p.reverse.dropWhile (· ≠ slash) with
 | nil => exact .inl rfl
 | cons c r =>
  have first : c = slash := by
   have filled : p.reverse.dropWhile (fun c : UInt8 => decide (c ≠ slash)) ≠ [] := by
    rw [left]
    exact List.cons_ne_nil c r
   have stopped := List.head_dropWhile_not (fun c : UInt8 => decide (c ≠ slash)) filled
   simp only [left, List.head_cons] at stopped
   simpa using stopped
  rw [left] at short
  refine .inr ⟨r.reverse, by rw [first]; simp, ?_⟩
  simpa using short

theorem length_dir_lt (p : Str) : dir p = dot ∨ dir p = [slash] ∨ (dir p).length < p.length := by
 rcases dirPart_cases p with empty | ⟨r, part, short⟩
 · exact .inl (by rw [dir, empty]; rfl)
 · rw [dir, part]
   rcases length_clean_concat_slash r with ends | ends | shorter
   · exact .inl ends
   · exact .inr (.inl ends)
   · exact .inr (.inr (by omega))

theorem dirsFuel_eq {p : Str} {fuel : Nat} (enough : p.length ≤ fuel) :
  dirsFuel fuel p = dirs p := by
 suffices both : ∀ k l, p.length ≤ k → p.length ≤ l → dirsFuel k p = dirsFuel l p from
  both fuel p.length enough (Nat.le_refl _)
 intro k
 induction k generalizing p with
 | zero =>
  intro l none_left _
  have empty : p = [] := List.length_eq_zero_iff.mp (by omega)
  subst empty
  cases l <;> rfl
 | succ k ih =>
  intro l room room'
  cases l with
  | zero =>
   have empty : p = [] := List.length_eq_zero_iff.mp (by omega)
   subst empty
   rfl
  | succ l =>
   rw [dirsFuel, dirsFuel]
   by_cases ends : dir p = dot ∨ dir p = [slash]
   · simp only [ends, if_true]
   · simp only [ends, if_false]
     have shorter : (dir p).length < p.length := by
      rcases length_dir_lt p with top | top | less
      · exact absurd (.inl top) ends
      · exact absurd (.inr top) ends
      · exact less
     rw [ih (p := dir p) (by omega) l (by omega) (by omega)]

theorem dirs_eq (p : Str) : dirs p = if dir p = dot ∨
  dir p = [slash] then [] else dir p :: dirs (dir p) := by
 have unrolled : dirs p = dirsFuel (p.length + 1) p := (dirsFuel_eq (Nat.le_succ _)).symm
 rw [unrolled, dirsFuel]
 by_cases ends : dir p = dot ∨ dir p = [slash]
 · simp only [ends, if_true]
 · simp only [ends, if_false]
   rcases length_dir_lt p with top | top | less
   · exact absurd (.inl top) ends
   · exact absurd (.inr top) ends
   · rw [dirsFuel_eq (by omega)]

theorem dirs_trans {p d a : Str} (up : d ∈ dirs p) (further : a ∈ dirs d) : a ∈ dirs p := by
 rw [dirs_eq] at up ⊢
 split at up
 · cases up
 · rename_i goesOn
   rw [if_neg goesOn]
   rcases List.mem_cons.mp up with rfl | higher
   · exact List.mem_cons_of_mem _ further
   · have less : (dir p).length < p.length := by
      rcases length_dir_lt p with top | top | less
      · exact absurd (.inl top) goesOn
      · exact absurd (.inr top) goesOn
      · exact less
     exact List.mem_cons_of_mem _ (dirs_trans higher further)
termination_by p.length

example : dirs (lit "etc/ssl/certs/ca.pem") = [lit "etc/ssl/certs", lit "etc/ssl", lit "etc"] := by
 decide +kernel

/-- A relative path that `path.Clean` leaves as it is. -/
def CleanRelative (p : Str) : Prop := clean p = p ∧ p.head? ≠ some slash

instance (p : Str) : Decidable (CleanRelative p) := inferInstanceAs (Decidable (_ ∧ _))

/-- No segment is dropped or taken back by `path.Clean`. -/
def Pushed (segments : List Str) : Prop :=
 segments.foldl (cleanStep false) [] = segments.reverse

section Ancestors

theorem cleanStep_cases (kept : List Str) (seg : Str) :
  cleanStep false kept seg = seg :: kept ∨ (cleanStep false kept seg).length ≤ kept.length := by
 unfold cleanStep
 grind

theorem length_foldl_cleanStep (segments : List Str) :
  (segments.foldl (cleanStep false) []).length ≤ segments.length := by
 induction segments using List.reverseRecOn with
 | nil => exact Nat.le_refl _
 | append_singleton segments s ih =>
  rw [List.foldl_concat, List.length_append, List.length_singleton]
  rcases cleanStep_cases (segments.foldl (cleanStep false) []) s with pushed | shorter
  · rw [pushed, List.length_cons]
    omega
  · omega

theorem pushed_of_concat {segments : List Str} {s : Str} (pushed : Pushed (segments ++ [s])) :
  Pushed segments := by
 unfold Pushed at pushed ⊢
 rw [List.foldl_concat, List.reverse_concat] at pushed
 have short := length_foldl_cleanStep segments
 rcases cleanStep_cases (segments.foldl (cleanStep false) []) s with step | shorter
 · rw [step] at pushed
   exact (List.cons.inj pushed).2
 · rw [pushed, List.length_cons, List.length_reverse] at shorter
   omega

theorem mem_cleanStep {kept : List Str} {seg x : Str} (member : x ∈ cleanStep false kept seg) :
  x = seg ∨ x ∈ kept := by
 unfold cleanStep at member
 grind

theorem slash_not_mem_foldl {segments : List Str} (free : ∀ s ∈ segments, slash ∉ s) :
  ∀ s ∈ segments.foldl (cleanStep false) [], slash ∉ s := by
 induction segments using List.reverseRecOn with
 | nil =>
  intro s member
  cases member
 | append_singleton segments s ih =>
  intro x member
  rw [List.foldl_concat] at member
  rcases mem_cleanStep member with rfl | earlier
  · exact free x (by simp)
  · exact ih (fun y listed => free y (by simp [listed])) x earlier

variable {p : Str}

theorem pushed_of_clean (tidy : CleanRelative p) (notDot : p ≠ dot) : Pushed (split slash p) := by
 obtain ⟨same, relative⟩ := tidy
 have filled : p ≠ [] := by
  rintro rfl
  exact absurd same (by decide)
 unfold clean at same
 rw [if_neg filled] at same
 simp only [relative, decide_false, if_false] at same
 by_cases empty : ((split slash p).foldl (cleanStep false) []).reverse = []
 · rw [if_pos empty] at same
   exact absurd same.symm notDot
 · rw [if_neg empty] at same
   have free : ∀ s ∈ ((split slash p).foldl (cleanStep false) []).reverse, slash ∉ s := by
    intro s member
    exact slash_not_mem_foldl (fun x inSplit => not_mem_of_mem_split inSplit) s
     (List.mem_reverse.mp member)
   have segments := split_join empty free
   rw [same] at segments
   unfold Pushed
   nth_rewrite 2 [segments]
   rw [List.reverse_reverse]

variable {q last : Str}

theorem dirPart_append (free : slash ∉ last) : dirPart (q ++ slash :: last) = q ++ [slash] := by
 unfold dirPart
 have passes : ∀ c ∈ last.reverse, decide (c ≠ slash) = true := by
  intro c member
  have other : c ≠ slash := by
   rintro rfl
   exact free (List.mem_reverse.mp member)
  simpa using other
 rw [List.reverse_append, List.reverse_cons, List.append_assoc, List.dropWhile_append_of_pos passes]
 simp

theorem dir_append (free : slash ∉ last) (filled : q ≠ [])
  (relative : q.head? ≠ some slash) (pushed : Pushed (split slash q)) :
  dir (q ++ slash :: last) = q := by
 rw [dir, dirPart_append free]
 have head : (q ++ [slash]).head? = q.head? := by
  cases q with
  | nil => exact absurd rfl filled
  | cons c q => rfl
 have kept : (split slash (q ++ [slash])).foldl (cleanStep false) [] = (split slash q).reverse := by
  rw [split_concat_slash, List.foldl_concat, pushed]
  rfl
 unfold clean
 rw [if_neg (by simp), head]
 simp only [relative, decide_false, if_false, kept, List.reverse_reverse]
 rw [if_neg (split_ne_nil q), join_split]

theorem split_dot_not_pushed : ¬ Pushed (split slash dot) := by
 unfold Pushed
 decide

theorem exists_last_segment (member : slash ∈ p) : ∃ q last, p = q ++ slash :: last ∧
  slash ∉ last := by
 obtain ⟨last, q, split, free⟩ := List.eq_append_cons_of_mem (List.mem_reverse.mpr member)
 refine ⟨q.reverse, last.reverse, ?_, by simpa using free⟩
 rw [← List.reverse_reverse p, split]
 simp

theorem dirs_of_no_slash (single : slash ∉ p) : dirs p = [] := by
 have part : dirPart p = [] := by
  rcases dirPart_cases p with empty | ⟨r, part, -⟩
  · exact empty
  · have inside : slash ∈ dirPart p := by simp [part]
    unfold dirPart at inside
    have sub :=
     (List.dropWhile_suffix (fun c : UInt8 => decide (c ≠ slash)) (l := p.reverse)).subset
    exact absurd (List.mem_reverse.mp (sub (List.mem_reverse.mp inside))) single
 rw [dirs_eq, dir, part]
 rfl

theorem concat_slash_prefix_iff {a : Str} (free : slash ∉ last) :
  a ++ [slash] <+: q ++ slash :: last ↔ a = q ∨ a ++ [slash] <+: q := by
 constructor
 · rintro ⟨rest, whole⟩
   rw [List.append_assoc, List.singleton_append] at whole
   rcases List.append_eq_append_iff.mp whole with ⟨more, qIs, tail⟩ | ⟨more, aIs, tail⟩
   · cases more with
     | nil => exact .inl (by simpa using qIs.symm)
     | cons c more =>
      refine .inr ⟨more, ?_⟩
      have first : slash = c := (List.cons.inj tail).1
      rw [qIs, first]
      simp
   · cases more with
     | nil => exact .inl (by simpa using aIs)
     | cons c more =>
      -- the separator would stand inside the last segment
      have later : last = more ++ slash :: rest := (List.cons.inj tail).2
      exact absurd (by rw [later]; simp) free
 · rintro (rfl | ⟨rest, whole⟩)
   · exact ⟨last, by simp⟩
   · exact ⟨rest ++ slash :: last, by rw [← whole]; simp⟩

theorem mem_dirs_of_pushed {p a : Str} (relative : p.head? ≠ some slash)
  (pushed : Pushed (split slash p)) : a ∈ dirs p ↔ a ++ [slash] <+: p := by
 by_cases member : slash ∈ p
 · obtain ⟨q, last, rfl, free⟩ := exists_last_segment member
   have filled : q ≠ [] := by
    rintro rfl
    exact relative rfl
   have first : q.head? ≠ some slash := by
    intro rooted
    refine relative ?_
    cases q with
    | nil => exact absurd rfl filled
    | cons c q => exact rooted
   have inner : Pushed (split slash q) := by
    rw [split_append_sep_append, split_of_not_mem free] at pushed
    exact pushed_of_concat pushed
   have parent : dir (q ++ slash :: last) = q := dir_append free filled first inner
   have notDot : q ≠ dot := by
    rintro rfl
    exact split_dot_not_pushed inner
   have notRoot : q ≠ [slash] := by
    rintro rfl
    exact first rfl
   have shorter : q.length < (q ++ slash :: last).length := by
    rw [List.length_append, List.length_cons]
    omega
   rw [concat_slash_prefix_iff free, dirs_eq, parent, if_neg (by simp [notDot, notRoot]),
    List.mem_cons, mem_dirs_of_pushed first inner]
 · rw [dirs_of_no_slash member]
   refine iff_of_false List.not_mem_nil ?_
   intro pre
   exact member (pre.subset (by simp))
termination_by p.length

theorem mem_dirs_iff {a : Str} (tidy : CleanRelative p) : a ∈ dirs p ↔ a ++ [slash] <+: p := by
 by_cases isDot : p = dot
 · have single : slash ∉ p := by
    rw [isDot]
    decide
   rw [dirs_of_no_slash single]
   refine iff_of_false List.not_mem_nil ?_
   intro pre
   exact single (pre.subset (by simp))
 · exact mem_dirs_of_pushed tidy.2 (pushed_of_clean tidy isDot)

end Ancestors

structure Ordinary (name : Str) : Prop where
 filled : name ≠ []
 single : slash ∉ name
 notDot : name ≠ dot
 notDotDot : name ≠ dotDot

theorem base_cases (p : Str) : base p = [slash] ∨ (base p ≠ [] ∧ slash ∉ base p) := by
 by_cases empty : p = []
 · rw [base, if_pos empty]
   exact .inr (by decide)
 · rw [base, if_neg empty]
   dsimp only
   split
   · exact .inl rfl
   · rename_i filled
     refine .inr ⟨filled, ?_⟩
     intro inside
     have kept := List.all_eq_true.mp List.all_takeWhile slash (List.mem_reverse.mp inside)
     simp at kept

theorem ordinary_base_iff (p : Str) : Ordinary (base p) ↔ base p ≠ [slash] ∧ base p ≠ dot ∧
  base p ≠ dotDot := by
 constructor
 · rintro ⟨-, single, notDot, notDotDot⟩
   refine ⟨?_, notDot, notDotDot⟩
   intro root
   rw [root] at single
   exact single List.mem_cons_self
 · rintro ⟨notRoot, notDot, notDotDot⟩
   rcases base_cases p with root | ⟨filled, single⟩
   · exact absurd root notRoot
   · exact ⟨filled, single, notDot, notDotDot⟩

theorem split_join_ordinary (some_segment : segments ≠ [])
  (ordinary : ∀ s ∈ segments, Ordinary s) : split slash (join slash segments) = segments :=
 split_join some_segment fun s inside => (ordinary s inside).single

/-- A segment that `path.Clean` drops or keeps, but never takes back. -/
def Tame (s : Str) : Prop := s = [] ∨ s = dot ∨ Ordinary s

def solid (segments : List Str) : List Str := segments.filter fun s => s ≠ [] ∧ s ≠ dot

variable {rooted : Bool} {kept : List Str}

theorem foldl_cleanStep_tame (tame : ∀ s ∈ segments, Tame s) :
  segments.foldl (cleanStep rooted) kept = (solid segments).reverse ++ kept := by
 induction segments generalizing kept with
 | nil => rfl
 | cons s rest ih =>
  have later : ∀ front, rest.foldl (cleanStep rooted) front = (solid rest).reverse ++ front :=
   fun front => ih fun x inside => tame x (List.mem_cons_of_mem s inside)
  rw [List.foldl_cons, later]
  by_cases dropped : s = [] ∨ s = dot
  · have skipped : solid (s :: rest) = solid rest := by
     apply List.filter_cons_of_neg
     rcases dropped with empty | single
     · simp [empty]
     · simp [single]
    rw [skipped, cleanStep.eq_def, if_pos dropped]
  · have ordinary : Ordinary s := by
     rcases tame s List.mem_cons_self with empty | single | ordinary
     · exact absurd (.inl empty) dropped
     · exact absurd (.inr single) dropped
     · exact ordinary
    have stays : solid (s :: rest) = s :: solid rest := by
     apply List.filter_cons_of_pos
     simpa using ⟨ordinary.filled, ordinary.notDot⟩
    rw [stays, cleanStep.eq_def, if_neg dropped, if_neg ordinary.notDotDot]
    simp

theorem clean_tame {p : Str} (filled : p ≠ []) (relative : p.head? ≠ some slash)
  (tame : ∀ s ∈ split slash p, Tame s) :
  clean p = if solid (split slash p) = [] then dot else join slash (solid (split slash p)) := by
 unfold clean
 rw [if_neg filled]
 simp only [relative, decide_false, if_false, foldl_cleanStep_tame tame, List.append_nil,
  List.reverse_reverse]

theorem solid_ordinary (ordinary : ∀ s ∈ segments, Ordinary s) : solid segments = segments := by
 apply List.filter_eq_self.mpr
 intro s inside
 simpa using ⟨(ordinary s inside).filled, (ordinary s inside).notDot⟩

theorem filled_cleanStep {seg : Str} (filled : [] ∉ kept) : [] ∉ cleanStep rooted kept seg := by
 unfold cleanStep
 grind

theorem filled_foldl_cleanStep (filled : [] ∉ kept) :
  [] ∉ segments.foldl (cleanStep rooted) kept := by
 induction segments generalizing kept with
 | nil => exact filled
 | cons s rest ih => exact ih (filled_cleanStep filled)

theorem clean_ne_nil (p : Str) : clean p ≠ [] := by
 unfold clean
 split
 · decide
 · dsimp only
   split
   · exact List.cons_ne_nil _ _
   · split
     · decide
     · rename_i some_kept
       obtain ⟨s, rest, kept⟩ := List.exists_cons_of_ne_nil some_kept
       have solid : s ≠ [] := by
        rintro rfl
        have inside :
          [] ∈ ((split slash p).foldl (cleanStep (p.head? = some slash)) []).reverse := by
         rw [kept]
         exact List.mem_cons_self
        exact filled_foldl_cleanStep List.not_mem_nil (List.mem_reverse.mp inside)
       rw [kept]
       cases rest with
       | nil => exact solid
       | cons t rest =>
        rw [join_cons _ (List.cons_ne_nil t rest)]
        exact List.append_ne_nil_of_left_ne_nil solid _

example : base (clean (lit "/srv/www/")) = lit "www" ∧ base (clean (lit "a/..")) = dot := by decide

end BackImage.Go.Path
