import TableDialects.Dialect.Basic

/- Keywords that were quoted as if they were names.

   Correspondence (program ↔ model):
     `QUOTED_KEYWORD_RULES`     ↔ `quotedKeywords`
     `sanitize_quoted_keywords` ↔ `unquoteKeywords` -/
namespace TableDialects.Cleanup

/-- Keywords that lose their quotes: the keyword, what must follow it, and what
is written instead. -/
def quotedKeywords : List (String × String × String) := [
  ("PRIMARY", " KEY", "PRIMARY KEY"), ("UNIQUE", " KEY", "UNIQUE"),
  ("FOREIGN", " KEY", "FOREIGN KEY"), ("CHECK", " (", "CHECK ("), ("DEFAULT", " ", "DEFAULT "),
  ("NOT", " NULL", "NOT NULL"), ("NULL", "", "NULL"), ("REFERENCES", "", "REFERENCES"),
  ("ON", " DELETE", "ON DELETE"), ("ON", " UPDATE", "ON UPDATE"), ("USING", "", "USING"),
  ("WITH", "", "WITH"), ("CONSTRAINT", "", "CONSTRAINT")]

/-- What is written for a quoted keyword: MySQL keeps KEY behind UNIQUE. -/
def keywordText (d : Dialect) (keyword text : String) : Text :=
  if keyword == "UNIQUE" && d == .mysql then "UNIQUE KEY" else text

/-- Removes the quotes of the dialect from keywords. -/
def unquoteKeywords (d : Dialect) (s : Text) : Text :=
  quotedKeywords.foldl (fun s (keyword, following, text) =>
    Text.replaceAll (d.quote keyword ++ following.toList) (keywordText d keyword text) s) s

end TableDialects.Cleanup
