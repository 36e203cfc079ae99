import Microtypes.Proofs.Token.Stops

/-!
# Where block comments end

A block comment ends where every comment that is opened in it is closed again. What is gone past is
then a text of the grammar of nested comments (`BlockComment`), and no other text of the grammar
begins in its place. If none does, the comment is reported as one that never ends
(`delimits_commentStop`).
-/

namespace Microtypes

variable {source text body rest : List Char} {c : Char} {depth : Int} {n pos stop length : Nat}
  {reading : Reading} {cause : LexicalCause} {problem : Problem}

/-! ## The piece at an offset -/

theorem segments_of_readPiece (hdrop : source.drop pos = c :: rest)
    (hread : readPiece c rest = .ok reading) :
    segments (source.drop pos) = (segments (source.drop (pos + (reading.more + 1)))).map
      (⟨reading.kind, slice source pos (pos + (reading.more + 1))⟩ :: ·) := by
  have hlater : source.drop (pos + (reading.more + 1)) = rest.drop reading.more := by
    rw [← List.drop_drop, hdrop, List.drop_succ_cons]
  have hslice : slice source pos (pos + (reading.more + 1)) = c :: rest.take reading.more := by
    rw [slice, hdrop, Nat.add_sub_cancel_left, List.take_succ_cons]
  rw [hlater, hslice, hdrop, segments.eq_def]
  simp only [hread]
  cases segments (rest.drop reading.more) <;> rfl

/-- A piece that cannot be read is reported at its offset. -/
theorem segments_of_refused (hdrop : source.drop pos = c :: rest)
    (hread : readPiece c rest = .error cause) (hcause : ∀ d, cause ≠ .foreignDigit d) :
    ∃ fault, segments (source.drop pos) = .error fault ∧
      fault.stop source = .of (.lexical cause) (.ofOffset source pos) := by
  have hlength : (source.take pos).length = pos := by
    have hpos := congrArg List.length hdrop
    rw [List.length_drop, List.length_cons] at hpos
    rw [List.length_take]
    omega
  have hsource : source = source.take pos ++ c :: rest := by
    rw [← hdrop, List.take_append_drop]
  refine ⟨⟨cause, c :: rest⟩, ?_, ?_⟩
  · rw [hdrop, segments.eq_def]
    simp only [hread]
  · rw [stop_of_ne_foreignDigit hcause, offset_of_fault hsource, hlength]

/-! ## Markers of block comments -/

/-- Whether a marker of block comments starts a text. -/
def StartsMarker (text : List Char) : Prop :=
  ['/', '*'] <+: text ∨ ['*', '/'] <+: text

/-- A text between the markers of a block comment. -/
def marked (body : List Char) : List Char :=
  '/' :: '*' :: (body ++ ['*', '/'])

/-- What stands between the markers of a block comment: complete comments, and characters at which
no marker starts. The last of them is looked at together with the closing marker. -/
inductive CommentBody : List Char → Prop
  | nil : CommentBody []
  | comment {inner body : List Char} (hinner : CommentBody inner) (hbody : CommentBody body) :
      CommentBody (marked inner ++ body)
  | char {c : Char} {body : List Char} (hplain : ¬ StartsMarker (c :: (body ++ ['*', '/'])))
      (hbody : CommentBody body) : CommentBody (c :: body)

/-- Whether a text is one complete block comment. -/
def BlockComment (text : List Char) : Prop :=
  ∃ body, CommentBody body ∧ text = marked body

theorem marked_append (body after : List Char) :
    marked body ++ after = '/' :: '*' :: (body ++ '*' :: '/' :: after) := by
  simp [marked]

theorem length_marked (body : List Char) : (marked body).length = body.length + 4 := by
  simp [marked]

/-- Whether a marker starts a text is decided by two characters. -/
theorem startsMarker_append (h : 2 ≤ text.length) (after : List Char) :
    StartsMarker (text ++ after) ↔ StartsMarker text := by
  have hmark {mark : List Char} (hlength : mark.length = 2) :
      mark <+: text ++ after ↔ mark <+: text :=
    ⟨fun hp => List.prefix_of_prefix_length_le hp (List.prefix_append _ _) (hlength ▸ h),
      fun hp => hp.trans (List.prefix_append _ _)⟩
  rw [StartsMarker, StartsMarker, hmark rfl, hmark rfl]

/-- What stands behind the closing marker does not turn a character into a marker. -/
theorem startsMarker_closed (c : Char) (body after : List Char) :
    StartsMarker (c :: (body ++ '*' :: '/' :: after)) ↔
      StartsMarker (c :: (body ++ ['*', '/'])) := by
  have happ : StartsMarker (c :: (body ++ ['*', '/']) ++ after) ↔
      StartsMarker (c :: (body ++ ['*', '/'])) := startsMarker_append (by simp) after
  rwa [List.cons_append, List.append_assoc] at happ

/-! ## The extent of block comments -/

theorem commentExtent_opener (depth : Int) (rest : List Char) :
    commentExtent depth ('/' :: '*' :: rest) = (commentExtent (depth + 1) rest).map (· + 2) := by
  rw [commentExtent]

theorem commentExtent_last (rest : List Char) :
    commentExtent 1 ('*' :: '/' :: rest) = some 2 := by
  rw [commentExtent, if_pos rfl]

theorem commentExtent_closer (h : depth ≠ 0) (rest : List Char) :
    commentExtent (depth + 1) ('*' :: '/' :: rest) = (commentExtent depth rest).map (· + 2) := by
  rw [commentExtent, if_neg (by omega), Int.add_sub_cancel]

theorem commentExtent_char (h : ¬ StartsMarker (c :: rest)) (depth : Int) :
    commentExtent depth (c :: rest) = (commentExtent depth rest).map (· + 1) := by
  rw [commentExtent]
  · rintro others rfl rfl
    exact h (.inl (List.prefix_append _ others))
  · rintro others rfl rfl
    exact h (.inr (List.prefix_append _ others))

/-- The body of a comment is gone past, and the depth at its end is that at its beginning. -/
theorem commentExtent_body (hbody : CommentBody body) (hdepth : 1 ≤ depth) (after : List Char) :
    commentExtent depth (body ++ '*' :: '/' :: after) =
      (commentExtent depth ('*' :: '/' :: after)).map (· + body.length) := by
  induction hbody generalizing depth after with
  | nil => simp
  | @comment inner body _ _ ihinner ihbody =>
    rw [List.append_assoc, marked_append, commentExtent_opener, ihinner (by omega),
      commentExtent_closer (by omega), ihbody hdepth, List.length_append, length_marked]
    simp only [Option.map_map]
    congr 1
    funext k
    simp only [Function.comp_apply]
    omega
  | @char c body hplain _ ih =>
    rw [List.cons_append, commentExtent_char (by rwa [startsMarker_closed]), ih hdepth,
      Option.map_map]
    rfl

/-- A text in which a comment closes begins with a body and its closing marker. -/
theorem exists_body_of_commentExtent (h : (commentExtent depth text).isSome = true)
    (hdepth : 1 ≤ depth) : ∃ body after, CommentBody body ∧ text = body ++ '*' :: '/' :: after := by
  -- a comment inside is left for the text behind it, so the induction is on the length
  induction hlength : text.length using Nat.strongRecOn generalizing text depth with
  | _ length ih =>
    subst hlength
    by_cases hopen : ['/', '*'] <+: text
    · obtain ⟨rest, hrest⟩ := hopen
      obtain rfl : '/' :: '*' :: rest = text := hrest
      rw [commentExtent_opener, Option.isSome_map] at h
      have hshorter : rest.length < ('/' :: '*' :: rest).length := by
        rw [List.length_cons, List.length_cons]
        omega
      obtain ⟨inner, later, hinner, rfl⟩ := ih _ hshorter h (by omega) rfl
      rw [commentExtent_body hinner (by omega), Option.isSome_map, commentExtent_closer (by omega),
        Option.isSome_map] at h
      have hlater : later.length < (inner ++ '*' :: '/' :: later).length := by
        rw [List.length_append, List.length_cons, List.length_cons]
        omega
      obtain ⟨body, after, hbody, rfl⟩ := ih _ (Nat.lt_trans hlater hshorter) h hdepth rfl
      exact ⟨marked inner ++ body, after, .comment hinner hbody, by simp [marked]⟩
    · by_cases hclose : ['*', '/'] <+: text
      · obtain ⟨rest, rfl⟩ := hclose
        exact ⟨[], rest, .nil, rfl⟩
      · cases text with
        | nil => simp [commentExtent] at h
        | cons c rest =>
          have hplain : ¬ StartsMarker (c :: rest) := not_or_intro hopen hclose
          rw [commentExtent_char hplain, Option.isSome_map] at h
          obtain ⟨body, after, hbody, rfl⟩ := ih _ (Nat.lt_succ_self _) h hdepth rfl
          rw [startsMarker_closed] at hplain
          exact ⟨c :: body, after, .char hplain hbody, rfl⟩

/-- A complete comment is gone past as far as it reaches. -/
theorem commentExtent_marked (hbody : CommentBody body) (after : List Char) :
    commentExtent 0 (marked body ++ after) = some (marked body).length := by
  rw [marked_append, commentExtent_opener, commentExtent_body hbody (by decide), Int.zero_add,
    commentExtent_last, length_marked]
  simp only [Option.map_some, Option.some.injEq]
  omega

/-- A text that opens a comment begins with a complete one exactly as far as the extent reaches. -/
theorem commentExtent_eq_some_iff (hopen : ['/', '*'] <+: text) :
    commentExtent 0 text = some n ↔ n ≤ text.length ∧ BlockComment (text.take n) := by
  constructor
  · intro h
    obtain ⟨rest, hrest⟩ := hopen
    obtain rfl : '/' :: '*' :: rest = text := hrest
    have hinside : (commentExtent 1 rest).isSome = true := by
      have hsome := Option.isSome_of_eq_some h
      rwa [commentExtent_opener, Option.isSome_map] at hsome
    obtain ⟨body, after, hbody, rfl⟩ := exists_body_of_commentExtent hinside (by decide)
    rw [← marked_append] at h ⊢
    obtain rfl : (marked body).length = n :=
      Option.some.inj ((commentExtent_marked hbody after).symm.trans h)
    rw [List.take_left, List.length_append]
    exact ⟨Nat.le_add_right _ _, body, hbody, rfl⟩
  · rintro ⟨hle, body, hbody, htake⟩
    have hlength : (marked body).length = n := by
      rw [← htake, List.length_take, Nat.min_eq_left hle]
    rw [← List.take_append_drop n text, htake, commentExtent_marked hbody, hlength]

/-! ## The end of a block comment -/

/-- The offset just past the block comment that begins at an offset, or the problem that it never
ends. -/
def commentStop (source : List Char) (pos : Nat) : Except Problem Nat :=
  match commentExtent 0 (source.drop pos) with
  | some length => .ok (pos + length)
  | none => .error ⟨.lexical .unterminatedComment, .ofOffset source pos⟩

/-- Whether what stands in a source from one offset up to another is one complete block comment. -/
structure SpansComment (source : List Char) (pos stop : Nat) : Prop where
  within : stop ≤ source.length
  comment : BlockComment (slice source pos stop)

theorem commentStop_eq_ok_iff (hopen : ['/', '*'] <+: source.drop pos) :
    commentStop source pos = .ok stop ↔ SpansComment source pos stop := by
  have hle := hopen.length_le
  rw [List.length_drop, List.length_cons, List.length_singleton] at hle
  constructor
  · intro h
    unfold commentStop at h
    split at h
    · next length hextent =>
      cases h
      obtain ⟨hwithin, hcomment⟩ := (commentExtent_eq_some_iff hopen).mp hextent
      rw [List.length_drop] at hwithin
      refine ⟨by omega, ?_⟩
      rwa [slice, Nat.add_sub_cancel_left]
    · cases h
  · rintro ⟨hwithin, hcomment⟩
    have hpos : pos ≤ stop := by
      obtain ⟨body, -, hbody⟩ := hcomment
      have hlength := congrArg List.length hbody
      rw [slice, List.length_take, length_marked] at hlength
      omega
    have hextent : commentExtent 0 (source.drop pos) = some (stop - pos) := by
      refine (commentExtent_eq_some_iff hopen).mpr ⟨?_, hcomment⟩
      rw [List.length_drop]
      omega
    rw [commentStop, hextent]
    simp only [Nat.add_sub_cancel' hpos]

theorem commentStop_eq_error_iff (hopen : ['/', '*'] <+: source.drop pos) :
    commentStop source pos = .error ⟨.lexical .unterminatedComment, .ofOffset source pos⟩ ↔
      ∀ text, text <+: source.drop pos → ¬ BlockComment text := by
  constructor
  · rintro h text htext hcomment
    have hextent : commentExtent 0 (source.drop pos) = some text.length := by
      refine (commentExtent_eq_some_iff hopen).mpr ⟨htext.length_le, ?_⟩
      rwa [← List.prefix_iff_eq_take.mp htext]
    rw [commentStop, hextent] at h
    cases h
  · intro h
    unfold commentStop
    split
    · next length hextent =>
      obtain ⟨-, hcomment⟩ := (commentExtent_eq_some_iff hopen).mp hextent
      exact absurd hcomment (h _ (List.take_prefix ..))
    · rfl

/-! ## Block comments among the pieces of a source -/

/-- Where a block comment begins, its rule decides. -/
theorem readPiece_of_blockCommentRule {result : Except LexicalCause Reading}
    (h : blockCommentRule '/' ('*' :: rest) = some result) :
    readPiece '/' ('*' :: rest) = result := by
  have hline : lineCommentRule '/' ('*' :: rest) = none := lineCommentRule_skips fun _ => by simp
  simp only [readPiece, lexicalRules, List.findSome?_cons, blankRule_skips (c := '/') rfl, hline, h,
    Option.getD_some]

theorem readPiece_of_closed (h : commentExtent 0 ('/' :: '*' :: rest) = some length) :
    ∃ reading, readPiece '/' ('*' :: rest) = .ok reading ∧ reading.more + 1 = length := by
  have hpos := commentExtent_pos h
  by_cases hdoc : (opensDoc '*' ('*' :: rest) &&
      !(['*', '*', '/'].isPrefixOf ('*' :: rest))) = true
  · refine ⟨.token .doc length, readPiece_of_blockCommentRule ?_, Nat.sub_add_cancel hpos⟩
    rw [blockCommentRule, if_pos ⟨rfl, rfl⟩, h]
    exact if_pos hdoc
  · refine ⟨.skip (length - 1), readPiece_of_blockCommentRule ?_, Nat.sub_add_cancel hpos⟩
    rw [blockCommentRule, if_pos ⟨rfl, rfl⟩, h]
    exact if_neg hdoc

theorem readPiece_of_unclosed (h : commentExtent 0 ('/' :: '*' :: rest) = none) :
    readPiece '/' ('*' :: rest) = .error .unterminatedComment := by
  refine readPiece_of_blockCommentRule ?_
  rw [blockCommentRule, if_pos ⟨rfl, rfl⟩, h]

/-- The reading goes on just past a block comment. -/
theorem segments_of_commentStop (hopen : ['/', '*'] <+: source.drop pos)
    (h : commentStop source pos = .ok stop) :
    ∃ kind, segments (source.drop pos) =
      (segments (source.drop stop)).map (⟨kind, slice source pos stop⟩ :: ·) := by
  obtain ⟨rest, hrest⟩ := hopen
  have hdrop : source.drop pos = '/' :: '*' :: rest := hrest.symm
  unfold commentStop at h
  split at h
  · next length hextent =>
    cases h
    rw [hdrop] at hextent
    obtain ⟨reading, hread, rfl⟩ := readPiece_of_closed hextent
    exact ⟨reading.kind, segments_of_readPiece hdrop hread⟩
  · cases h

/-- The reading stops at a block comment that never ends, with the same problem. -/
theorem segments_of_commentStop_error (hopen : ['/', '*'] <+: source.drop pos)
    (h : commentStop source pos = .error problem) :
    ∃ fault, segments (source.drop pos) = .error fault ∧ fault.stop source = .problem problem := by
  obtain ⟨rest, hrest⟩ := hopen
  have hdrop : source.drop pos = '/' :: '*' :: rest := hrest.symm
  unfold commentStop at h
  split at h
  · cases h
  · next hextent =>
    cases h
    rw [hdrop] at hextent
    exact segments_of_refused hdrop (readPiece_of_unclosed hextent) (by simp)

/-- A block comment ends where the grammar of nested comments says, and nowhere else; where no text
of the grammar begins, it is reported at its first character. The reading of the source goes on at
the end of the comment, or stops with the same problem. -/
theorem delimits_commentStop (source : List Char) (pos : Nat)
    (hopen : ['/', '*'] <+: source.drop pos) :
    (∀ stop, commentStop source pos = .ok stop ↔ SpansComment source pos stop) ∧
    (∀ stop stop', SpansComment source pos stop → SpansComment source pos stop' → stop = stop') ∧
    (commentStop source pos = .error ⟨.lexical .unterminatedComment, .ofOffset source pos⟩ ↔
      ∀ text, text <+: source.drop pos → ¬ BlockComment text) ∧
    (∀ stop, commentStop source pos = .ok stop → ∃ kind, segments (source.drop pos) =
      (segments (source.drop stop)).map (⟨kind, slice source pos stop⟩ :: ·)) ∧
    ∀ problem, commentStop source pos = .error problem → ∃ fault,
      segments (source.drop pos) = .error fault ∧ fault.stop source = .problem problem := by
  refine ⟨fun stop => commentStop_eq_ok_iff hopen, ?_, commentStop_eq_error_iff hopen,
    fun stop => segments_of_commentStop hopen, fun problem => segments_of_commentStop_error hopen⟩
  intro stop stop' h h'
  have hstop := (commentStop_eq_ok_iff hopen).mpr h
  have hstop' := (commentStop_eq_ok_iff hopen).mpr h'
  exact Except.ok.inj (hstop.symm.trans hstop')

/-- The characters of a marker are used once: the slash behind the opening marker closes nothing. -/
theorem delimits_commentStop_overlapping :
    ['/', '*'] <+: "a/*/**/*/b".toList.drop 1 ∧ SpansComment "a/*/**/*/b".toList 1 9 ∧
      ['/', '*'] <+: "/*/".toList ∧ ∀ text, text <+: "/*/".toList → ¬ BlockComment text := by
  have hopen : ['/', '*'] <+: "a/*/**/*/b".toList.drop 1 := by decide
  have hopen' : ['/', '*'] <+: "/*/".toList := by decide
  obtain ⟨hspans, -⟩ := delimits_commentStop _ _ hopen
  obtain ⟨-, -, hunclosed, -⟩ := delimits_commentStop "/*/".toList 0 hopen'
  exact ⟨hopen, (hspans 9).mp rfl, hopen', hunclosed.mp rfl⟩

end Microtypes
