import T3Claw.Data.DiskWalk
import T3Claw.Files.Encoding
import T3Claw.Files.Tools

/-!
# What a patch leaves of a file

`apply_patch` decodes a file, makes each of its line endings a line feed, and writes the edited
content with one ending, the one that the file had most often. Outside of what is replaced the file
keeps its bytes exactly when its endings there are of that kind, and no byte is left over of the
pairs of UTF-16 (`patch_preserves_iff`).
-/

namespace T3Claw.Files

/-! ### Lists with stretches replaced -/

section Stretches

variable {α : Type}

/-- The stretches of a list outside of ranges. -/
def gaps (l : List α) : (last : ℕ) → List (ℕ × ℕ) → List (List α)
  | last, [] => [l.drop last]
  | last, (start, stop) :: rest => (l.drop last).take (start - last) :: gaps l stop rest

/-- The stretches stand in the list, in this order, with something between them and nothing outside
of them. -/
inductive Around : List (List α) → List α → Prop
  | last (stretch : List α) : Around [stretch] stretch
  | cons {stretch between rest : List α} {stretches : List (List α)} (h : Around stretches rest) :
      Around (stretch :: stretches) (stretch ++ (between ++ rest))

/-- Ranges that follow one another. -/
def Ascending : (last : ℕ) → List (ℕ × ℕ) → Prop
  | _, [] => True
  | last, (start, stop) :: rest => last ≤ start ∧ start ≤ stop ∧ Ascending stop rest

theorem gaps_ne_nil (l : List α) (last : ℕ) (ranges : List (ℕ × ℕ)) : gaps l last ranges ≠ [] := by
  cases ranges <;> exact List.cons_ne_nil _ _

theorem map_gaps {β : Type} (f : α → β) (l : List α) (last : ℕ) (ranges : List (ℕ × ℕ)) :
    gaps (l.map f) last ranges = (gaps l last ranges).map (·.map f) := by
  induction ranges generalizing last with
  | nil => rw [gaps, gaps, List.map_singleton, List.map_drop]
  | cons range rest ih => rw [gaps, gaps, List.map_cons, ih, List.map_take, List.map_drop]

/-- Outside of ranges that follow one another stands what is left. -/
theorem around_gaps (l : List α) {last : ℕ} {ranges : List (ℕ × ℕ)} (h : Ascending last ranges) :
    Around (gaps l last ranges) (l.drop last) := by
  induction ranges generalizing last with
  | nil => exact .last _
  | cons range rest ih =>
    obtain ⟨start, stop⟩ := range
    obtain ⟨hstart, hstop, hrest⟩ := h
    have hsplit : l.drop last = (l.drop last).take (start - last) ++
        ((l.drop start).take (stop - start) ++ l.drop stop) := by
      have hfront : l.drop start = (l.drop last).drop (start - last) := by
        rw [List.drop_drop]
        congr 1
        omega
      have hback : l.drop stop = (l.drop start).drop (stop - start) := by
        rw [List.drop_drop]
        congr 1
        omega
      rw [hback, List.take_append_drop, hfront, List.take_append_drop]
    have haround : Around ((l.drop last).take (start - last) :: gaps l stop rest)
        ((l.drop last).take (start - last) ++
          ((l.drop start).take (stop - start) ++ l.drop stop)) := .cons (ih hrest)
    rwa [← hsplit] at haround

/-- The stretches with something behind the last. -/
def behind (back : List α) : List (List α) → List (List α)
  | [] => []
  | [stretch] => [stretch ++ back]
  | stretch :: next :: rest => stretch :: behind back (next :: rest)

/-- The stretches with something in front of the first. -/
def before (front : List α) : List (List α) → List (List α)
  | [] => []
  | stretch :: rest => (front ++ stretch) :: rest

variable {front back between l : List α} {stretches : List (List α)}

theorem around_behind (h : Around stretches l) : Around (behind back stretches) (l ++ back) := by
  induction h with
  | last stretch => exact .last _
  | @cons stretch between rest stretches h ih =>
    cases stretches with
    | nil => cases h
    | cons next stretches =>
      rw [behind, List.append_assoc, List.append_assoc]
      exact .cons ih

theorem around_before (h : Around stretches l) : Around (before front stretches) (front ++ l) := by
  cases h with
  | last => exact .last _
  | cons h =>
    rw [← List.append_assoc]
    exact .cons h

theorem behind_ne_nil (h : stretches ≠ []) : behind back stretches ≠ [] := by
  fun_cases behind back stretches with
  | case1 => exact h
  | case2 => exact List.cons_ne_nil _ _
  | case3 => exact List.cons_ne_nil _ _

theorem intercalate_behind (h : stretches ≠ []) :
    between.intercalate (behind back stretches) = between.intercalate stretches ++ back := by
  fun_induction behind back stretches with
  | case1 => contradiction
  | case2 stretch => rw [List.intercalate_singleton, List.intercalate_singleton]
  | case3 stretch next rest ih =>
    have hne : behind back (next :: rest) ≠ [] := behind_ne_nil (List.cons_ne_nil next rest)
    obtain ⟨first, others, hbehind⟩ := List.exists_cons_of_ne_nil hne
    rw [hbehind] at ih ⊢
    rw [List.intercalate_cons_cons, List.intercalate_cons_cons, ih (List.cons_ne_nil next rest),
      List.append_assoc, List.append_assoc, List.append_assoc]

theorem intercalate_before (h : stretches ≠ []) :
    between.intercalate (before front stretches) = front ++ between.intercalate stretches := by
  cases stretches with
  | nil => contradiction
  | cons stretch rest =>
    cases rest with
    | nil => rw [before, List.intercalate_singleton, List.intercalate_singleton]
    | cons next rest =>
      rw [before, List.intercalate_cons_cons, List.intercalate_cons_cons, List.append_assoc,
        List.append_assoc, List.append_assoc]

/-- What goes through a concatenation goes through a text put together of stretches. -/
theorem map_intercalate {β : Type} {f : List α → List β} (hnil : f [] = [])
    (happend : ∀ a b, f (a ++ b) = f a ++ f b) (between : List α) (stretches : List (List α)) :
    f (between.intercalate stretches) = (f between).intercalate (stretches.map f) := by
  induction stretches with
  | nil => exact hnil
  | cons stretch rest ih =>
    cases rest with
    | nil => rw [List.map_singleton, List.intercalate_singleton, List.intercalate_singleton]
    | cons next rest =>
      rw [List.map_cons] at ih
      rw [List.intercalate_cons_cons, happend, happend, ih, List.map_cons, List.map_cons,
        List.intercalate_cons_cons]

theorem around_map {β : Type} {f : List α → List β} (happend : ∀ a b, f (a ++ b) = f a ++ f b)
    (h : Around stretches l) : Around (stretches.map f) (f l) := by
  induction h with
  | last stretch => exact .last _
  | cons h ih =>
    rw [happend, happend]
    exact .cons ih

theorem mem_of_mem_gaps {a : α} {last : ℕ} {ranges : List (ℕ × ℕ)} {stretch : List α}
    (hstretch : stretch ∈ gaps l last ranges) (ha : a ∈ stretch) : a ∈ l := by
  induction ranges generalizing last with
  | nil =>
    rw [gaps, List.mem_singleton] at hstretch
    exact List.mem_of_mem_drop (hstretch ▸ ha)
  | cons range rest ih =>
    obtain ⟨start, stop⟩ := range
    rw [gaps] at hstretch
    obtain rfl | hrest := List.mem_cons.mp hstretch
    · exact List.mem_of_mem_drop (List.mem_of_mem_take ha)
    · exact ih hrest

/-- Pieces that are joined to the same, none longer than its counterpart, are the same. -/
theorem eq_of_flatten_eq {xs ys : List (List α)}
    (hle : List.Forall₂ (fun x y => x.length ≤ y.length) xs ys) (h : xs.flatten = ys.flatten) :
    xs = ys := by
  induction hle with
  | nil => rfl
  | @cons x y xs ys hxy hle ih =>
    have hrest : xs.flatten.length ≤ ys.flatten.length := by
      clear ih h
      induction hle with
      | nil => exact Nat.le_refl _
      | cons hxy _ ih =>
        rw [List.flatten_cons, List.flatten_cons, List.length_append, List.length_append]
        omega
    rw [List.flatten_cons, List.flatten_cons] at h
    have hlength := congrArg List.length h
    rw [List.length_append, List.length_append] at hlength
    obtain ⟨rfl, hflat⟩ := List.append_inj h (by omega)
    rw [ih hflat]

end Stretches

/-! ### The characters of a content in the file -/

/-- What stands in a text for each character of its content. -/
def units : List Char → List (List Char)
  | [] => []
  | '\r' :: '\n' :: rest => ['\r', '\n'] :: units rest
  | c :: rest => [c] :: units rest

/-- A line ending. -/
def IsEnding (unit : List Char) : Prop := unit = ['\r', '\n'] ∨ unit = ['\r'] ∨ unit = ['\n']

/-- The character of the content. -/
def unitChar (unit : List Char) : Char := if unit.head? = some '\r' then '\n' else unit.headI

namespace LineEnding

/-- `as_str`. -/
def text : LineEnding → List Char
  | Lf => ['\n']
  | CrLf => ['\r', '\n']
  | Cr => ['\r']

end LineEnding

/-- A character of a content as it is written. -/
def written (line_ending : LineEnding) (c : Char) : List Char :=
  if c = '\n' then line_ending.text else [c]

/-- The bytes of a text, without a byte order mark. -/
def textBytes : FileEncoding → List Char → List UInt8
  | .Utf8, cs => encodeUtf8 cs
  | .Utf16Le, cs => leBytes (cs.flatMap encodeUtf16)

def byteOrderMark : FileEncoding → List UInt8
  | .Utf8 => []
  | .Utf16Le => [0xFF, 0xFE]

/-- The bytes at the end of a file that its content does not have. -/
def leftover : FileEncoding → List UInt8 → List UInt8
  | .Utf8, _ => []
  | .Utf16Le, bytes => oddByte (bytes.drop 2)

theorem replace_singleton (d : Char) (replacement cs : List Char) :
    Text.replace [d] replacement cs = cs.flatMap fun c => if c = d then replacement else [c] := by
  rw [Text.replace]
  induction cs with
  | nil => rfl
  | cons c cs ih =>
    rw [Text.replaceFrom, List.flatMap_cons]
    by_cases hc : c = d
    · rw [if_pos (by simp [hc]), if_pos hc]
      exact congrArg _ ih
    · rw [if_neg (by simpa using fun h => hc h.symm), if_neg hc]
      exact congrArg _ ih

/-- What is written of a content. -/
theorem encodeFile_eq (content : List Char) (encoding : FileEncoding) (line_ending : LineEnding) :
    encodeFile content encoding line_ending =
      byteOrderMark encoding ++ textBytes encoding (content.flatMap (written line_ending)) := by
  have hself : written .Lf = fun c => [c] := by
    funext c
    rw [written]
    split_ifs with hc
    · exact hc ▸ rfl
    · rfl
  cases line_ending with
  | Lf =>
    rw [hself, List.flatMap_singleton']
    cases encoding <;> rfl
  | CrLf =>
    have hreplace : content.flatMap (written .CrLf) = Text.replace ['\n'] ['\r', '\n'] content :=
      (replace_singleton ..).symm
    rw [hreplace]
    cases encoding <;> rfl
  | Cr =>
    have hreplace : content.flatMap (written .Cr) = Text.replace ['\n'] ['\r'] content :=
      (replace_singleton ..).symm
    rw [hreplace]
    cases encoding <;> rfl

/-! ### Reading -/

theorem flatten_units (raw : List Char) : (units raw).flatten = raw := by
  fun_induction units raw with
  | case1 => rfl
  | case2 rest ih => rw [List.flatten_cons, ih]; rfl
  | case3 c rest _ ih => rw [List.flatten_cons, ih]; rfl

/-- A unit is an ending, or a character that is none. -/
theorem unit_cases {raw unit : List Char} (h : unit ∈ units raw) :
    IsEnding unit ∧ unitChar unit = '\n' ∨ ∃ c, unit = [c] ∧ unitChar unit = c ∧ c ≠ '\n' ∧
      ¬ IsEnding unit := by
  have hsingle (c : Char) : IsEnding [c] ∧ unitChar [c] = '\n' ∨ ∃ d, [c] = [d] ∧
      unitChar [c] = d ∧ d ≠ '\n' ∧ ¬ IsEnding [c] := by
    by_cases hreturn : c = '\r'
    · subst hreturn
      exact .inl ⟨.inr (.inl rfl), rfl⟩
    by_cases hfeed : c = '\n'
    · subst hfeed
      exact .inl ⟨.inr (.inr rfl), rfl⟩
    · exact .inr ⟨c, rfl, by simp [unitChar, hreturn], hfeed, by simp [IsEnding, hreturn, hfeed]⟩
  fun_induction units raw with
  | case1 => cases h
  | case2 rest ih =>
    obtain rfl | h := List.mem_cons.mp h
    · exact .inl ⟨.inl rfl, rfl⟩
    · exact ih h
  | case3 c rest _ ih =>
    obtain rfl | h := List.mem_cons.mp h
    · exact hsingle c
    · exact ih h

/-- The content that is read of a text. -/
theorem content_eq (raw : List Char) :
    Text.replace ['\r'] ['\n'] (Text.replace ['\r', '\n'] ['\n'] raw) =
      (units raw).map unitChar := by
  rw [replace_singleton]
  have hpair (cs : List Char) : Text.replace ['\r', '\n'] ['\n'] cs =
      (units cs).flatMap fun unit => if unit = ['\r', '\n'] then ['\n'] else unit := by
    rw [Text.replace]
    fun_induction units cs with
    | case1 => rfl
    | case2 rest ih =>
      rw [Text.replaceFrom, if_pos (by simp), List.flatMap_cons, if_pos rfl, ← ih]
      rfl
    | case3 c rest h ih =>
      have hnot : ¬['\r', '\n'].isPrefixOf (c :: rest) = true := by
        rw [List.isPrefixOf_iff_prefix, List.cons_prefix_cons]
        rintro ⟨rfl, rest', rfl⟩
        exact h rest' rfl rfl
      rw [Text.replaceFrom, if_neg hnot, List.flatMap_cons, if_neg (by simp), ih]
      rfl
  rw [hpair, List.flatMap_assoc, List.map_eq_flatMap]
  refine List.flatMap_congr fun unit hunit => ?_
  split_ifs with hcrlf
  · subst hcrlf
    rfl
  · obtain ⟨hending, hchar⟩ | ⟨c, rfl, hchar, -, hnone⟩ := unit_cases hunit
    · obtain rfl | rfl | rfl := hending
      · contradiction
      · rfl
      · rfl
    · have hreturn : c ≠ '\r' := fun h => hnone (.inr (.inl (h ▸ rfl)))
      rw [hchar, List.flatMap_singleton, if_neg hreturn]

theorem exists_of_bind {ε α β : Type} {x : Except ε α} {f : α → Except ε β} {b : β}
    (h : x >>= f = .ok b) : ∃ a, x = .ok a ∧ f a = .ok b := by
  cases x with
  | error e => cases h
  | ok a => exact ⟨a, rfl, h⟩

/-- The text of a file: its bytes are a mark, the text, and what is left over. -/
def Holds (bytes : List UInt8) (encoding : FileEncoding) (raw : List Char) : Prop :=
  bytes = byteOrderMark encoding ++ textBytes encoding raw ++ leftover encoding bytes

/-- What is read of a file. -/
theorem decodeFile_eq_ok {bytes : List UInt8} {content : List Char} {encoding : FileEncoding}
    {line_ending : LineEnding} (h : decodeFile bytes = .ok (content, encoding, line_ending)) :
    ∃ raw, Holds bytes encoding raw ∧ content = (units raw).map unitChar ∧
      line_ending = detectLineEnding raw := by
  unfold decodeFile at h
  cases hdetect : detectEncoding bytes with
  | Utf8 =>
    simp only [hdetect] at h
    cases hdecode : decodeUtf8 bytes with
    | none =>
      rw [hdecode] at h
      cases h
    | some raw =>
      rw [hdecode] at h
      obtain ⟨rfl, hrest⟩ := Prod.mk.inj (Except.ok.inj h)
      obtain ⟨rfl, rfl⟩ := Prod.mk.inj hrest
      refine ⟨raw, ?_, content_eq raw, rfl⟩
      have htext : textBytes .Utf8 raw = bytes := encodeUtf8_of_decode hdecode
      rw [Holds, htext]
      exact (List.append_nil _).symm
  | Utf16Le =>
    simp only [hdetect] at h
    obtain ⟨rest, rfl⟩ : ∃ rest, bytes = 0xFF :: 0xFE :: rest := by
      unfold detectEncoding at hdetect
      split at hdetect
      · exact ⟨_, rfl⟩
      · cases hdetect
    cases hdecode : decodeUtf16 (u16s rest) with
    | none =>
      simp only [List.drop_succ_cons, List.drop_zero, hdecode] at h
      cases h
    | some raw =>
      simp only [List.drop_succ_cons, List.drop_zero, hdecode] at h
      obtain ⟨rfl, hrest⟩ := Prod.mk.inj (Except.ok.inj h)
      obtain ⟨rfl, rfl⟩ := Prod.mk.inj hrest
      refine ⟨raw, ?_, content_eq raw, rfl⟩
      rw [Holds, textBytes, encodeUtf16_of_decode (u16s_lt rest) hdecode]
      change _ = 0xFF :: 0xFE :: (leBytes (u16s rest) ++ oddByte rest)
      rw [← leBytes_u16s]

/-! ### Bytes of texts -/

theorem textBytes_append (encoding : FileEncoding) (a b : List Char) :
    textBytes encoding (a ++ b) = textBytes encoding a ++ textBytes encoding b := by
  cases encoding with
  | Utf8 => exact List.flatMap_append
  | Utf16Le => rw [textBytes, List.flatMap_append, leBytes, List.flatMap_append]; rfl

theorem encodeUtf16_lt (cs : List Char) : ∀ u ∈ cs.flatMap encodeUtf16, u < 0x10000 := by
  intro u hu
  obtain ⟨c, -, hc⟩ := List.mem_flatMap.mp hu
  have hrange := toNat_range c
  rw [encodeUtf16] at hc
  split_ifs at hc
  · rw [List.mem_singleton.mp hc]
    assumption
  · obtain rfl | hc := List.mem_cons.mp hc
    · omega
    · rw [List.mem_singleton.mp hc]
      omega

theorem textBytes_injective (encoding : FileEncoding) :
    Function.Injective (textBytes encoding) := by
  intro a b h
  cases encoding with
  | Utf8 =>
    have hdecode := congrArg decodeUtf8 h
    rw [textBytes, textBytes, decodeUtf8_encodeUtf8, decodeUtf8_encodeUtf8] at hdecode
    exact Option.some.inj hdecode
  | Utf16Le =>
    have hpairs := congrArg u16s h
    rw [textBytes, textBytes, u16s_leBytes (encodeUtf16_lt a),
      u16s_leBytes (encodeUtf16_lt b)] at hpairs
    have hdecode := congrArg decodeUtf16 hpairs
    rw [decodeUtf16_encodeUtf16, decodeUtf16_encodeUtf16] at hdecode
    exact Option.some.inj hdecode

theorem length_leBytes (us : List ℕ) : (leBytes us).length = 2 * us.length := by
  induction us with
  | nil => rfl
  | cons u us ih =>
    have hcons : leBytes (u :: us) =
        UInt8.ofNat (u % 256) :: UInt8.ofNat (u / 256) :: leBytes us := rfl
    rw [hcons, List.length_cons, List.length_cons, ih, List.length_cons]
    omega

theorem length_oddByte (bytes : List UInt8) : (oddByte bytes).length ≤ 1 := by
  fun_induction oddByte bytes with
  | case1 low high rest ih => exact ih
  | case2 bytes h =>
    cases bytes with
    | nil => exact Nat.zero_le 1
    | cons low bytes =>
      cases bytes with
      | nil => exact Nat.le_refl 1
      | cons high rest => exact absurd rfl (h low high rest)

/-- A text is not one that bytes are left over of. -/
theorem leftover_eq_nil {encoding : FileEncoding} {a b : List Char} {bytes : List UInt8}
    (h : textBytes encoding a = textBytes encoding b ++ leftover encoding bytes) :
    leftover encoding bytes = [] := by
  cases encoding with
  | Utf8 => rfl
  | Utf16Le =>
    have hlength := congrArg List.length h
    have hle := length_oddByte (bytes.drop 2)
    rw [textBytes, textBytes, leftover, List.length_append, length_leBytes,
      length_leBytes] at hlength
    exact List.eq_nil_of_length_eq_zero (by rw [leftover]; omega)

theorem textBytes_eq_iff {encoding : FileEncoding} {a b : List Char} {bytes : List UInt8} :
    textBytes encoding a = textBytes encoding b ++ leftover encoding bytes ↔
      a = b ∧ leftover encoding bytes = [] := by
  constructor
  · intro h
    have hnil := leftover_eq_nil h
    rw [hnil, List.append_nil] at h
    exact ⟨textBytes_injective encoding h, hnil⟩
  · rintro ⟨rfl, hnil⟩
    rw [hnil, List.append_nil]

theorem textBytes_flatten (encoding : FileEncoding) (pieces : List (List Char)) :
    textBytes encoding pieces.flatten = pieces.flatMap (textBytes encoding) := by
  induction pieces with
  | nil => cases encoding <;> rfl
  | cons piece pieces ih =>
    rw [List.flatten_cons, textBytes_append, ih, List.flatMap_cons]

/-! ### The edited text -/

section Edited

variable {α : Type}

/-- Texts that are joined with the same text between them, none longer than its counterpart. -/
theorem eq_of_intercalate_eq {between : List α} {xs ys : List (List α)}
    (hle : List.Forall₂ (fun x y => x.length ≤ y.length) xs ys)
    (h : between.intercalate xs = between.intercalate ys) : xs = ys := by
  have hjoin {l : List (List α)} (hne : l ≠ []) :
      (l.map (· ++ between)).flatten = between.intercalate l ++ between := by
    induction l with
    | nil => contradiction
    | cons x l ih =>
      cases l with
      | nil => simp
      | cons y l =>
        rw [List.map_cons, List.flatten_cons, ih (List.cons_ne_nil y l),
          List.intercalate_cons_cons, List.append_assoc, List.append_assoc, List.append_assoc]
  cases hle with
  | nil => rfl
  | @cons x y xs ys hxy hle =>
    have hflat : ((x :: xs).map (· ++ between)).flatten =
        ((y :: ys).map (· ++ between)).flatten := by
      rw [hjoin (List.cons_ne_nil x xs), hjoin (List.cons_ne_nil y ys), h]
    have hlengths : List.Forall₂ (fun x y => x.length ≤ y.length)
        ((x :: xs).map (· ++ between)) ((y :: ys).map (· ++ between)) := by
      rw [List.forall₂_map_left_iff, List.forall₂_map_right_iff]
      have hall : List.Forall₂ (fun x y : List α => x.length ≤ y.length) (x :: xs) (y :: ys) :=
        .cons hxy hle
      refine hall.imp fun x y hxy => ?_
      rw [List.length_append, List.length_append]
      omega
    exact List.map_injective_iff.mpr (fun _ _ h => List.append_cancel_right h)
      (eq_of_flatten_eq hlengths hflat)

/-- Pieces that are no longer in one form than in another have the same forms if they make the same
text. -/
theorem eq_of_gaps_eq {β : Type} {f g : β → List α} {between : List α}
    {stretches : List (List β)}
    (hle : ∀ stretch ∈ stretches, ∀ a ∈ stretch, (f a).length ≤ (g a).length)
    (h : between.intercalate (stretches.map (·.flatMap f)) =
      between.intercalate (stretches.map (·.flatMap g))) :
    ∀ stretch ∈ stretches, ∀ a ∈ stretch, f a = g a := by
  have hpieces : List.Forall₂ (fun x y => x.length ≤ y.length) (stretches.map (·.flatMap f))
      (stretches.map (·.flatMap g)) := by
    rw [List.forall₂_map_left_iff, List.forall₂_map_right_iff, List.forall₂_same]
    intro stretch hstretch
    rw [List.length_flatMap, List.length_flatMap]
    exact List.sum_le_sum (hle stretch hstretch)
  intro stretch hstretch a ha
  have hflat : stretch.flatMap f = stretch.flatMap g :=
    List.map_inj_left.mp (eq_of_intercalate_eq hpieces h) stretch hstretch
  have hforms : List.Forall₂ (fun x y => x.length ≤ y.length) (stretch.map f) (stretch.map g) := by
    rw [List.forall₂_map_left_iff, List.forall₂_map_right_iff, List.forall₂_same]
    exact hle stretch hstretch
  rw [List.flatMap_def, List.flatMap_def] at hflat
  exact List.map_inj_left.mp (eq_of_flatten_eq hforms hflat) a ha

end Edited

/-- The units of a text keep their form if its endings are all of one kind. -/
theorem written_eq_iff {line_ending : LineEnding} {raw unit : List Char} (h : unit ∈ units raw) :
    written line_ending (unitChar unit) = unit ↔ (IsEnding unit → unit = line_ending.text) := by
  obtain ⟨hending, hchar⟩ | ⟨c, rfl, hchar, hfeed, hnone⟩ := unit_cases h
  · rw [hchar, written, if_pos rfl]
    exact ⟨fun h _ => h.symm, fun h => (h hending).symm⟩
  · rw [hchar, written, if_neg hfeed]
    exact iff_of_true rfl fun h => absurd h hnone

/-- No unit is longer than it is written where `CrLf` is, and none is shorter elsewhere. -/
theorem length_written {line_ending : LineEnding} {raw unit : List Char} (h : unit ∈ units raw) :
    (line_ending = .CrLf → unit.length ≤ (written line_ending (unitChar unit)).length) ∧
      (line_ending ≠ .CrLf → (written line_ending (unitChar unit)).length ≤ unit.length) := by
  obtain ⟨hending, hchar⟩ | ⟨c, rfl, hchar, hfeed, -⟩ := unit_cases h
  · rw [hchar, written, if_pos rfl]
    obtain rfl | rfl | rfl := hending <;> cases line_ending <;> decide
  · rw [hchar, written, if_neg hfeed]
    exact ⟨fun _ => Nat.le_refl _, fun _ => Nat.le_refl _⟩

/-- The stretches that are kept are written as they were exactly when each of their units is. -/
theorem written_gaps_iff {line_ending : LineEnding} {raw between : List Char}
    {stretches : List (List (List Char))}
    (hunits : ∀ stretch ∈ stretches, ∀ unit ∈ stretch, unit ∈ units raw) :
    between.intercalate
          (stretches.map (·.flatMap fun unit => written line_ending (unitChar unit))) =
        between.intercalate (stretches.map (·.flatMap id)) ↔
      ∀ stretch ∈ stretches, ∀ unit ∈ stretch, IsEnding unit → unit = line_ending.text := by
  constructor
  · intro h stretch hstretch unit hunit
    rw [← written_eq_iff (hunits stretch hstretch unit hunit)]
    by_cases hcrlf : line_ending = .CrLf
    · exact (eq_of_gaps_eq (fun stretch hstretch unit hunit =>
        (length_written (hunits stretch hstretch unit hunit)).1 hcrlf) h.symm
        stretch hstretch unit hunit).symm
    · exact eq_of_gaps_eq (fun stretch hstretch unit hunit =>
        (length_written (hunits stretch hstretch unit hunit)).2 hcrlf) h
        stretch hstretch unit hunit
  · intro h
    refine congrArg between.intercalate (List.map_congr_left fun stretch hstretch =>
      List.flatMap_congr fun unit hunit => ?_)
    exact (written_eq_iff (hunits stretch hstretch unit hunit)).mpr (h stretch hstretch unit hunit)

/-! ### A patch -/

open ApplyPatchTool

theorem rebuild_eq (content new_string : List Char) (last : ℕ) (ranges : List (ℕ × ℕ)) :
    rebuild content new_string last ranges =
      new_string.intercalate (gaps content last ranges) := by
  induction ranges generalizing last with
  | nil => rw [rebuild, gaps, List.intercalate_singleton]
  | cons range rest ih =>
    obtain ⟨start, stop⟩ := range
    obtain ⟨next, others, hgaps⟩ := List.exists_cons_of_ne_nil (gaps_ne_nil content stop rest)
    rw [rebuild, gaps, ih, hgaps, List.intercalate_cons_cons]

theorem start_le_of_findOriginalSpan {original haystack needle : List Char} {start stop : ℕ}
    (h : findOriginalSpan original haystack needle = some (start, stop)) : start ≤ stop := by
  unfold findOriginalSpan at h
  obtain ⟨index, -, h⟩ := Option.bind_eq_some_iff.mp h
  obtain ⟨first, -, h⟩ := Option.bind_eq_some_iff.mp h
  obtain ⟨last, -, h⟩ := Option.bind_eq_some_iff.mp h
  split_ifs at h with hle
  obtain ⟨rfl, rfl⟩ := Prod.mk.inj (Option.some.inj h)
  exact hle

theorem start_le_of_findMatchFrom {content needle : List Char} {offset : ℕ} {m : FuzzyMatch}
    (h : findMatchFrom content needle offset = some m) : m.start ≤ m.stop := by
  unfold findMatchFrom at h
  split_ifs at h
  obtain ⟨⟨method, start, stop⟩, hfound, rfl⟩ := Option.map_eq_some_iff.mp h
  refine Nat.add_le_add_left (?_ : start ≤ stop) offset
  unfold findInSearch at hfound
  simp only at hfound
  split at hfound
  · cases hfound
    exact Nat.le_add_right _ _
  · split at hfound
    case h_1 hspan =>
      cases hfound
      exact start_le_of_findOriginalSpan hspan
    case h_2 =>
      split at hfound
      · cases hfound
        exact Nat.le_add_right _ _
      · obtain ⟨⟨first, last⟩, hspan, heq⟩ := Option.map_eq_some_iff.mp hfound
        cases heq
        exact start_le_of_findOriginalSpan hspan

theorem ascending_collectMatches {content needle : List Char} {fuel offset : ℕ}
    {ranges : List (ℕ × ℕ)} (h : collectMatches content needle fuel offset = .ok ranges) :
    Ascending offset ranges := by
  induction fuel generalizing offset ranges with
  | zero =>
    cases h
    trivial
  | succ fuel ih =>
    rw [collectMatches] at h
    split at h
    case h_1 =>
      cases h
      trivial
    case h_2 m hfound =>
      split_ifs at h with hempty
      cases hrest : collectMatches content needle fuel m.stop with
      | error e =>
        rw [hrest] at h
        cases h
      | ok rest =>
        rw [hrest] at h
        obtain rfl := Except.ok.inj h
        exact ⟨start_of_findMatchFrom hfound, by omega, ih hrest⟩

/-- The ranges that a patch replaces, in the content of its file. -/
def replacedRanges (patch : Patch) : List (ℕ × ℕ) :=
  if patch.replace_all then
    match collectMatches patch.content patch.old_string (patch.content.length + 1) 0 with
    | .ok found => found
    | .error _ => []
  else (findMatch patch.content patch.old_string).toList.map fun m => (m.start, m.stop)

theorem ascending_replacedRanges (patch : Patch) : Ascending 0 (replacedRanges patch) := by
  unfold replacedRanges
  split
  · split
    case h_1 found hfound => exact ascending_collectMatches hfound
    case h_2 => trivial
  · cases hfound : findMatch patch.content patch.old_string with
    | none => trivial
    | some m => exact ⟨Nat.zero_le _, start_le_of_findMatchFrom hfound, trivial⟩

theorem newContent_eq_ok {patch : Patch} {content : List Char}
    (h : newContent patch = .ok content) :
    content = patch.new_string.intercalate (gaps patch.content 0 (replacedRanges patch)) := by
  rw [← rebuild_eq]
  unfold newContent at h
  unfold replacedRanges
  split at h
  case isTrue hall =>
    obtain ⟨found, hfound, h⟩ := exists_of_bind h
    rw [if_pos hall, hfound]
    split_ifs at h
    exact (Except.ok.inj h).symm
  case isFalse hall =>
    rw [if_neg hall]
    split at h
    case h_1 => cases h
    case h_2 m hfound =>
      rw [hfound]
      exact (Except.ok.inj h).symm

/-- The bytes of a file outside of what a patch replaces. -/
def outside (patch : Patch) (bytes : List UInt8) (raw : List Char) : List (List UInt8) :=
  before (byteOrderMark patch.encoding) (behind (leftover patch.encoding bytes)
    ((gaps (units raw) 0 (replacedRanges patch)).map (·.flatMap (textBytes patch.encoding))))

/-- What is written for a replacement. -/
def replacement (patch : Patch) : List UInt8 :=
  textBytes patch.encoding (patch.new_string.flatMap (written patch.line_ending))

/-- **What the checks of a patch read**: the file, and what is in it. -/
theorem read_of_target {place : Place} {s : FileTools} {call : ToolCall} {patch : Patch}
    (h : target place s call = .ok patch) :
    ∃ bytes, s.disk.read patch.path = .ok bytes ∧
      decodeFile bytes = .ok (patch.content, patch.encoding, patch.line_ending) := by
  unfold target at h
  obtain ⟨path_str, -, h⟩ := exists_of_bind h
  split at h
  · cases h
  obtain ⟨old_string, -, h⟩ := exists_of_bind h
  obtain ⟨new_string, -, h⟩ := exists_of_bind h
  split at h
  · cases h
  obtain ⟨path, -, h⟩ := exists_of_bind h
  split at h
  · cases h
  obtain ⟨metadata, -, h⟩ := exists_of_bind h
  split at h
  · cases h
  obtain ⟨-, -, h⟩ := exists_of_bind h
  obtain ⟨bytes, hbytes, h⟩ := exists_of_bind h
  obtain ⟨⟨content, encoding, line_ending⟩, hdecode, h⟩ := exists_of_bind h
  simp only at h
  split at h
  · cases h
  split at h
  · cases h
  obtain rfl := Except.ok.inj h
  refine ⟨bytes, ?_, hdecode⟩
  split at hbytes
  case h_1 => cases hbytes
  case h_2 => cases hbytes
  case h_3 found _ hread => exact Except.ok.inj hbytes ▸ hread

/-- What was written through a path is read through it. -/
theorem read_of_write {disk later : Disk} {path : Path} {bytes : List UInt8} {now : ℤ}
    (h : disk.write path bytes now = .ok later) : later.read path = .ok bytes := by
  obtain ⟨p, hlocation, -, hnode⟩ := Disk.write_eq_ok h
  have hplace : later.place path = .found p :=
    Disk.canonicalize_eq_some.mp ((Disk.canonicalize_of_write h).trans hlocation)
  have hfile : later.node p = some (.file bytes now) := by rw [hnode, Function.update_self]
  simp only [Disk.read, hplace, hfile]

/-- **What a patch that succeeds leaves in its file.** -/
theorem read_of_execute {place : Place} {s later : FileTools} {call : ToolCall} {patch : Patch}
    {out : ToolOutput} (htarget : target place s call = .ok patch)
    (h : execute place s call = (later, .ok out)) :
    ∃ content, newContent patch = .ok content ∧
      later.disk.read patch.path =
        .ok (encodeFile content patch.encoding patch.line_ending) := by
  rw [execute, htarget] at h
  have hlater : (edit (takeSnapshot s call patch.path "apply_patch") call patch).1 = later :=
    congrArg Prod.fst h
  have hout : (edit (takeSnapshot s call patch.path "apply_patch") call patch).2.map
      (fun _ => _) = .ok out := congrArg Prod.snd h
  have hedit : (edit (takeSnapshot s call patch.path "apply_patch") call patch).2 = .ok () := by
    cases hresult : (edit (takeSnapshot s call patch.path "apply_patch") call patch).2 with
    | error e =>
      rw [hresult] at hout
      cases hout
    | ok => rfl
  rw [← hlater]
  unfold edit at hedit ⊢
  split at hedit
  case h_1 => cases hedit
  case h_2 content hcontent => exact ⟨content, hcontent, read_of_write (finishEdit_eq_ok hedit).2⟩

/-- The file that a patch writes, with what it kept of the content and what it put there. -/
theorem encodeFile_newContent {patch : Patch} {content raw : List Char}
    (hnew : newContent patch = .ok content) (hraw : patch.content = (units raw).map unitChar) :
    encodeFile content patch.encoding patch.line_ending = byteOrderMark patch.encoding ++
      textBytes patch.encoding ((patch.new_string.flatMap (written patch.line_ending)).intercalate
        ((gaps (units raw) 0 (replacedRanges patch)).map
          (·.flatMap fun unit => written patch.line_ending (unitChar unit)))) := by
  have hpieces : (gaps patch.content 0 (replacedRanges patch)).map
        (·.flatMap (written patch.line_ending)) =
      (gaps (units raw) 0 (replacedRanges patch)).map
        (·.flatMap fun unit => written patch.line_ending (unitChar unit)) := by
    rw [hraw, map_gaps, List.map_map]
    exact List.map_congr_left fun stretch _ => List.flatMap_map ..
  rw [encodeFile_eq, newContent_eq_ok hnew, ← hpieces,
    map_intercalate List.flatMap_nil fun _ _ => List.flatMap_append]

/-- The file with its bytes outside of the replaced ranges kept. -/
theorem intercalate_outside (patch : Patch) (bytes : List UInt8) (raw : List Char) :
    (replacement patch).intercalate (outside patch bytes raw) = byteOrderMark patch.encoding ++
      (textBytes patch.encoding ((patch.new_string.flatMap (written patch.line_ending)).intercalate
        ((gaps (units raw) 0 (replacedRanges patch)).map (·.flatMap id))) ++
          leftover patch.encoding bytes) := by
  have hpieces : (gaps (units raw) 0 (replacedRanges patch)).map
        (·.flatMap (textBytes patch.encoding)) =
      ((gaps (units raw) 0 (replacedRanges patch)).map (·.flatMap id)).map
        (textBytes patch.encoding) := by
    rw [List.map_map]
    refine List.map_congr_left fun stretch _ => ?_
    rw [← textBytes_flatten, Function.comp_apply, List.flatMap_id]
  have hne : (gaps (units raw) 0 (replacedRanges patch)).map
      (·.flatMap (textBytes patch.encoding)) ≠ [] :=
    fun h => gaps_ne_nil _ _ _ (List.map_eq_nil_iff.mp h)
  have hnil : textBytes patch.encoding [] = [] := by cases patch.encoding <;> rfl
  rw [outside, intercalate_before (behind_ne_nil hne), intercalate_behind hne, hpieces, replacement,
    map_intercalate hnil (textBytes_append patch.encoding)]

/-- Outside of the replaced ranges stands all of the file but what is replaced. -/
theorem around_outside (patch : Patch) {bytes : List UInt8} {raw : List Char}
    (h : Holds bytes patch.encoding raw) : Around (outside patch bytes raw) bytes := by
  have hunits : Around (gaps (units raw) 0 (replacedRanges patch)) (units raw) :=
    around_gaps (units raw) (ascending_replacedRanges patch)
  have htext : Around ((gaps (units raw) 0 (replacedRanges patch)).map
      (·.flatMap (textBytes patch.encoding))) (textBytes patch.encoding raw) := by
    have happend : ∀ a b : List (List Char), (a ++ b).flatMap (textBytes patch.encoding) =
        a.flatMap (textBytes patch.encoding) ++ b.flatMap (textBytes patch.encoding) :=
      fun _ _ => List.flatMap_append
    have hmap := around_map happend hunits
    rwa [← textBytes_flatten, flatten_units] at hmap
  have hfile : Around (outside patch bytes raw) (byteOrderMark patch.encoding ++
      (textBytes patch.encoding raw ++ leftover patch.encoding bytes)) :=
    around_before (around_behind htext)
  rwa [← List.append_assoc, ← h] at hfile

/-- **What a patch leaves of a file**: the bytes of the file outside of the replaced ranges are kept
exactly when each line ending there is of the kind that the file has most often, and no byte is left
over of the pairs of UTF-16. -/
theorem patch_preserves_iff {place : Place} {s later : FileTools} {call : ToolCall}
    {patch : Patch} {out : ToolOutput} (htarget : target place s call = .ok patch)
    (hexec : execute place s call = (later, .ok out)) :
    ∃ bytes raw, s.disk.read patch.path = .ok bytes ∧ Holds bytes patch.encoding raw ∧
      patch.content = (units raw).map unitChar ∧ Around (outside patch bytes raw) bytes ∧
      (later.disk.read patch.path =
          .ok ((replacement patch).intercalate (outside patch bytes raw)) ↔
        (∀ stretch ∈ gaps (units raw) 0 (replacedRanges patch), ∀ unit ∈ stretch,
            IsEnding unit → unit = (detectLineEnding raw).text) ∧
          leftover patch.encoding bytes = []) := by
  obtain ⟨bytes, hread, hdecode⟩ := read_of_target htarget
  obtain ⟨raw, hholds, hcontent, hending⟩ := decodeFile_eq_ok hdecode
  obtain ⟨content, hnew, hlater⟩ := read_of_execute htarget hexec
  have hunits : ∀ stretch ∈ gaps (units raw) 0 (replacedRanges patch), ∀ unit ∈ stretch,
      unit ∈ units raw := fun _ hstretch _ hunit => mem_of_mem_gaps hstretch hunit
  refine ⟨bytes, raw, hread, hholds, hcontent, around_outside patch hholds, ?_⟩
  rw [hlater, Except.ok.injEq, encodeFile_newContent hnew hcontent, intercalate_outside,
    List.append_cancel_left_eq, textBytes_eq_iff, written_gaps_iff hunits, hending]

deriving instance DecidableEq for Patch

deriving instance DecidableEq for ToolOutput

/-- A disk with one file, that was read. -/
def opened (content : List Char) : FileTools where
  disk :=
    match Disk.empty.write ["a.txt"] (encodeUtf8 content) 0 with
    | .ok disk => disk
    | .error _ => .empty
  history := .withMaxSnapshots 50
  read_state := ReadFileState.recordRead ⟨.empty⟩ ⟨1, ["a.txt"], 0, false⟩

/-- A patch of the letter `b`. -/
def replaceB : ToolCall :=
  ⟨1, .obj [("path", .str "/a.txt"), ("old_string", .str "b"), ("new_string", .str "x")], 0,
    .never, 2⟩

/-- What is to be patched by it, in a file that has `\r\n` most often. -/
def patchB (content : List Char) : Patch :=
  ⟨["a.txt"], ['b'], ['x'], false, content, .Utf8, .CrLf, 1, .Exact⟩

theorem endings_kept : ∃ bytes raw,
    (opened ['a', '\r', '\n', 'b', '\r', '\n']).disk.read ["a.txt"] = .ok bytes ∧
      Holds bytes .Utf8 raw ∧ ['a', '\n', 'b', '\n'] = (units raw).map unitChar ∧
      Around (outside (patchB ['a', '\n', 'b', '\n']) bytes raw) bytes ∧
      ((execute ⟨[], none⟩ (opened ['a', '\r', '\n', 'b', '\r', '\n']) replaceB).1.disk.read
            ["a.txt"] =
          .ok ((replacement (patchB ['a', '\n', 'b', '\n'])).intercalate
            (outside (patchB ['a', '\n', 'b', '\n']) bytes raw)) ↔
        (∀ stretch ∈ gaps (units raw) 0 [(2, 3)], ∀ unit ∈ stretch,
            IsEnding unit → unit = (detectLineEnding raw).text) ∧
          leftover .Utf8 bytes = []) := by
  have htarget : target ⟨[], none⟩ (opened ['a', '\r', '\n', 'b', '\r', '\n']) replaceB =
      .ok (patchB ['a', '\n', 'b', '\n']) := by decide +kernel
  have hout : (execute ⟨[], none⟩ (opened ['a', '\r', '\n', 'b', '\r', '\n']) replaceB).2 =
      .ok (.patched "/a.txt" 1 none) := by decide +kernel
  exact patch_preserves_iff htarget (Prod.ext rfl hout)

/-- A line feed among pairs of a return and a line feed becomes such a pair. -/
theorem line_feed_rewritten : ¬∀ (place : Place) (s later : FileTools) (call : ToolCall)
    (patch : Patch) (out : ToolOutput), target place s call = .ok patch →
    execute place s call = (later, .ok out) →
    ∀ bytes raw, s.disk.read patch.path = .ok bytes → Holds bytes patch.encoding raw →
      patch.content = (units raw).map unitChar →
      later.disk.read patch.path =
        .ok ((replacement patch).intercalate (outside patch bytes raw)) := by
  intro h
  have htarget :
      target ⟨[], none⟩ (opened ['a', '\r', '\n', 'b', '\n', 'c', '\r', '\n']) replaceB =
        .ok (patchB ['a', '\n', 'b', '\n', 'c', '\n']) := by decide +kernel
  have hout :
      (execute ⟨[], none⟩ (opened ['a', '\r', '\n', 'b', '\n', 'c', '\r', '\n']) replaceB).2 =
        .ok (.patched "/a.txt" 1 none) := by decide +kernel
  have hread := h _ _ _ _ _ _ htarget (Prod.ext rfl hout)
    (encodeUtf8 ['a', '\r', '\n', 'b', '\n', 'c', '\r', '\n'])
    ['a', '\r', '\n', 'b', '\n', 'c', '\r', '\n'] (by decide +kernel)
    (by unfold Holds; decide +kernel) (by decide +kernel)
  revert hread
  decide +kernel

end T3Claw.Files
