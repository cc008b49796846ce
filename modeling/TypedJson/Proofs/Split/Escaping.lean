import TypedJson.Proofs.Json.Quoted
import TypedJson.Proofs.Split.Steps

/-!
# Quoted strings under the scans

The scans of a splitter have a simpler notion of a string than its grammar: a backslash hides one
byte, and a quote that is not hidden ends the string. They stop behind a string that is quoted by an
encoder, whatever it holds and whatever follows it (`StopsBehind`), and what is read up to there
decodes to the string (`quote_stopsBehind`).
-/

namespace TypedJson

namespace Scan

/-- A body of a string is neither left early nor late, whatever follows its closing quote. -/
structure StopsBehind (body : List UInt8) : Prop where
  /-- The scan of a key reads the body and nothing else. -/
  string_append : ∀ rest, string [] (body ++ rest) = .ok (body, rest)
  /-- The scan of a member leaves the string behind the body, within the brackets it was in. -/
  member_append : ∀ closers read rest,
    member { closers, mode := .string } read (body ++ rest) =
      member { closers } (body.reverse ++ read) rest
  /-- Within the body, that scan is within the string. -/
  mode_ne_plain : ∀ closers before after, body = before ++ after → after ≠ [] →
    (before.foldl State.step { closers, mode := .string }).mode ≠ .plain

/-- Within a string, every proper part from its start leaves the scan in the string. -/
theorem IsQuoted.mode_ne_plain {body : List UInt8} (h : IsQuoted body) (closers : List UInt8)
    {before after : List UInt8} (hbody : body = before ++ after) (hafter : after ≠ []) :
    (before.foldl State.step { closers, mode := .string }).mode ≠ .plain := by
  induction h generalizing before with
  | close =>
    obtain ⟨rfl, -⟩ | ⟨-, rfl⟩ := List.singleton_eq_append_iff.mp hbody
    · exact Mode.noConfusion
    · exact absurd rfl hafter
  | @character b bytes hquote hescape _ ih =>
    cases before with
    | nil => exact Mode.noConfusion
    | cons c before =>
      obtain ⟨rfl, hbytes⟩ := List.cons_eq_cons.mp hbody
      have hstep : State.step { closers, mode := .string } b = { closers, mode := .string } := by
        rw [State.step, if_neg hquote, if_neg hescape]
      rw [List.foldl_cons, hstep]
      exact ih hbytes
  | @escape b bytes _ ih =>
    have hescape : State.step { closers, mode := .string } Byte.backslash =
        { closers, mode := .escape } := rfl
    cases before with
    | nil => exact Mode.noConfusion
    | cons c before =>
      obtain ⟨rfl, hbytes⟩ := List.cons_eq_cons.mp hbody
      rw [List.foldl_cons, hescape]
      cases before with
      | nil => exact Mode.noConfusion
      | cons d before =>
        obtain ⟨rfl, hrest⟩ := List.cons_eq_cons.mp hbytes
        exact ih hrest

theorem IsQuoted.stopsBehind {body : List UInt8} (h : IsQuoted body) : StopsBehind body where
  string_append rest := Scan.string_append h [] rest
  member_append _ read rest := (crosses_quoted h).member_append read rest
  mode_ne_plain closers _ _ := h.mode_ne_plain closers

end Scan

namespace Json

/-- **A quoted string is a literal of that string, and scans stop behind it.** Whatever the string
and the flags are, the text is a quote and a body that spells the characters of the string in the
grammar of strings, surrogates paired, and the strict reader answers the string. No control
character and no line terminator stands in it, and without the flag for it nothing beyond ASCII
does. The scans of a splitter that start behind the opening quote stop behind the closing one,
whatever follows. -/
theorem quote_stopsBehind (flags : JsonFlags) (s : String) :
    ∃ body, Utf8.encode (quote flags s) = Byte.quote :: body ∧
      Grammar.Spells body s.toList ∧
      readString? (Utf8.encode (quote flags s)) = some s ∧
      (∀ c ∈ (quote flags s).toList, ¬ IsUnsafe c) ∧
      (flags.has .unescapedUnicode = false → ∀ b ∈ Utf8.encode (quote flags s), b < 0x80) ∧
      Scan.StopsBehind body := by
  have hspells := spells_quotedBody flags s
  have hread := Container.readString?_quote hspells.isScalar
  refine ⟨quotedBody flags s, encode_quote flags s, hspells, ?_, not_isUnsafe_of_mem_quote flags s,
    fun hflag ↦ ?_, (Grammar.isString_of_isBody hspells.isBody).isQuoted.stopsBehind⟩
  · rw [encode_quote]
    exact hread
  · rw [encode_quote]
    exact List.forall_mem_cons.mpr ⟨by decide, lt_of_mem_quotedBody hflag s⟩

/-- A string with everything that is escaped, and how it is written with no flag. -/
example : quote .none "/\"\\\n\x01é\u2028😀" =
    "\"\\/\\\"\\\\\\n\\u0001\\u00e9\\u2028\\ud83d\\ude00\"" := by decide

end Json

end TypedJson
