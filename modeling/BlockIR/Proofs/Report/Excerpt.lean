import BlockIR.Proofs.Listing.Blame
import BlockIR.Report

/-! Reports on a source that is no listing show where. The failure lies in one of the lines of the source, so that
line is shown, and the mark below it is under the column of the failure. -/

namespace BlockIR

lemma Listing.Inside.line? {source : String} {p : Position} (h : Inside source p) (file : String) :
    ∃ line, Report.line? source (p.inFile file) = some line ∧ (Text.lines source)[p.line - 1]? = some line ∧
      1 ≤ p.line ∧ 1 ≤ p.column ∧ p.column ≤ line.length + 1 := by
  obtain ⟨k, l, hk, hline, hpos, hcolumn⟩ := h.mem_lines
  have hlines : (Text.lines source)[p.line - 1]? = some (String.ofList l) := by simp [Text.lines, hline, hk]
  have hindex : ((p.line : Int) - 1).toNat = p.line - 1 := by omega
  refine ⟨String.ofList l, ?_, hlines, by omega, hpos, by simpa using hcolumn⟩
  simp only [Report.line?, Position.inFile, hindex, hlines]
  exact if_pos (by omega)

namespace Report

lemma length_padded_line {r : Report} {p : Place} (h : r.place = some p) :
    (padded r.margin (Decimal.ofInt p.line)).length = r.indent.length := by
  have hle : (Decimal.ofInt p.line).length ≤ r.margin := by
    rw [margin, h]
    exact Nat.le_max_right _ _
  simp only [padded, indent, Text.repeated, String.length_append, String.length_ofList, List.length_replicate]
  omega

lemma render_of_line {r : Report} {p : Place} {source line : String} (hp : r.place = some p)
    (hl : line? source p = some line) (hlength : r.length = 1) (hnotes : r.notes = []) (hhelp : r.help = "")
    (colour : Bool) (title : String) : r.render colour title source = String.join
      [ r.header colour, r.arrow colour title,
        r.indent, " ", bar colour, "\n",
        Style.bold.paint colour (padded r.margin (Decimal.ofInt p.line)), " ", bar colour, " ", line, "\n",
        r.indent, " ", bar colour, " ",
        Text.repeated (p.column - 1).toNat ' ', (Style.level r.level).paint colour "^", "\n", "\n" ] := by
  have hmark : Text.repeated (max 1 r.length).toNat '^' = "^" := by
    rw [hlength]
    rfl
  simp only [render, excerpt, hp, hl, hnotes, hhelp, marker, hmark, List.map_nil, String.join_cons, String.join_nil,
    String.append_assoc, String.empty_append, String.append_empty, if_true]

end Report

/-- A source that is no listing, or cannot be lowered, fails in one of its lines, at most one past the end of the
line. The report on it shows that line with a mark under the column of the failure. -/
theorem Listing.failure_shown (file source : String) (e : SourceFailure)
    (h : (parse file source >>= toTree file) = .error e) (colour : Bool) (title : String) :
    ∃ (n c : Nat) (line : String), e.place = ⟨file, n, c⟩ ∧ 1 ≤ n ∧ n ≤ (Text.lines source).length ∧
      (Text.lines source)[n - 1]? = some line ∧ 1 ≤ c ∧ c ≤ line.length + 1 ∧
      let r := Report.ofFailure (.source e)
      let number := Report.padded r.margin (Decimal.ofInt n)
      number.length = r.indent.length ∧
      (Failure.source e).render colour title source = String.join
        [ r.header colour, r.arrow colour title,
          r.indent, " ", Report.bar colour, "\n",
          Report.Style.bold.paint colour number, " ", Report.bar colour, " ", line, "\n",
          r.indent, " ", Report.bar colour, " ",
          Text.repeated (c - 1) ' ', (Report.Style.level .error).paint colour "^", "\n", "\n" ] := by
  obtain ⟨p, hp, hplace⟩ := lower_fails_inside h
  obtain ⟨line, hline, hlines, hn, hc, hcolumn⟩ := hp.line? file
  have hlast : p.line ≤ (Text.lines source).length := by
    have hlt := (List.getElem?_eq_some_iff.1 hlines).1
    omega
  have hspaces : ((p.column : Int) - 1).toNat = p.column - 1 := by omega
  refine ⟨p.line, p.column, line, hplace, hn, hlast, hlines, hc, hcolumn, ?_⟩
  intro r number
  have hr : r.place = some ⟨file, p.line, p.column⟩ := congrArg some hplace
  have hlevel : r.level = .error := rfl
  have hnumber := Report.length_padded_line hr
  have hrender := Report.render_of_line hr hline rfl rfl rfl colour title
  rw [hlevel, hspaces] at hrender
  exact ⟨hnumber, hrender⟩

theorem Listing.failure_shown_at_end :
    let source := "@f \x7b .a: # ü\n"
    let e : SourceFailure := ⟨⟨"a", 2, 1⟩, .unexpected "<EOF>" (some "\"\x7d\"")⟩
    (parse "a" source >>= toTree "a") = .error e ∧ Text.lines source = ["@f \x7b .a: # ü", ""] ∧
    (∃ (n c : Nat) (line : String), e.place = ⟨"a", n, c⟩ ∧ 1 ≤ n ∧ n ≤ (Text.lines source).length ∧
      (Text.lines source)[n - 1]? = some line ∧ 1 ≤ c ∧ c ≤ line.length + 1) ∧
    (Failure.source e).render false "b" source =
      "error[E0200]: unexpected token \"<EOF>\" (expected \"\x7d\")\n    --> b:2:1\n    │\n  2 │ \n    │ ^\n\n" := by
  intro source e
  have hparse : parse "a" source = .error e := by decide +kernel
  have hfail : (parse "a" source >>= toTree "a") = .error e := bind_eq_error.2 (.inl hparse)
  obtain ⟨n, c, line, hplace, hn, hlast, hline, hc, hcolumn, _⟩ := failure_shown "a" source e hfail false "b"
  exact ⟨hfail, by decide +kernel, ⟨n, c, line, hplace, hn, hlast, hline, hc, hcolumn⟩, by decide +kernel⟩

end BlockIR
