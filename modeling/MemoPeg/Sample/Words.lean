import MemoPeg.Sample.Arithmetic

/-
  A sample grammar: words between commas.

  Keywords are no words, and no word is longer than five letters.  A quoted string ends at the quote
  that it began with, which is handed on as an argument.
-/

namespace MemoPeg.Sample

/-- A call with the binding `q` as its argument. -/
def refWithQuote (rule : String) : Operator := .call rule [.binding "q"]

/-- Words and quoted strings between commas. -/
def words : Except GrammarError Grammar :=
  Declaration.build
    { name := "words"
      rules := [
        ⟨"list", [],
          .sequence [
            .tag (ref "item") "first",
            .tag (.repetition (.sequence [.direct "sep" [], ref "item"]) 0 none true) "rest",
            .action (.pure fun s => .list (s.value "first" :: (s.value "rest").items))]⟩,
        ⟨"sep", [], .sequence [.literal ",", .optional (.literal " ")]⟩,
        ⟨"item", [], .choice [ref "quoted", ref "word", .bounds (.literal "_")]⟩,
        ⟨"word", [],
          .sequence [
            .notAhead (ref "keyword"),
            .tag (.collect (.plus (.range "a" "z"))) "w",
            .ahead (.action (.pure fun s =>
              .bool ((s.value "text").str?.any fun t => Text.size t.toList ≤ 5))),
            .action (.pure fun s => s.value "w")]⟩,
        ⟨"keyword", [],
          .sequence [.choice [.literal "if", .literal "else"], .notAhead (.range "a" "z")]⟩,
        ⟨"quoted", [],
          .sequence [
            .ahead (.choice [.literal "'", .literal "\""]),
            .tag .any "q",
            .tag (refWithQuote "body") "b",
            refWithQuote "close",
            .action (.pure fun s => .node "quoted" [s.value "b"])]⟩,
        ⟨"body", ["q"],
          .collect (.star (.sequence [.notAhead (refWithQuote "close"), .any]))⟩,
        ⟨"close", ["q"],
          .sequence [
            .tag .any "c",
            .ahead (.action (.pure fun s => .bool (s.value "c" = s.value "q")))]⟩]
      root := none
      links := [] }

end MemoPeg.Sample
