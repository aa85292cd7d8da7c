import Rubric.Profile.Basic

/-!
# The profiles that come with the program

Three runs over enrolments of students: a full and a quick grading, and a count by city.
-/

namespace Rubric.Shipped

/-- The text of some lines. -/
def textOf (lines : List String) : String := String.join (lines.map (· ++ "\n"))

/-- The script of the full grading: the average of all subjects decides. -/
def gradingScript : String :=
  textOf
    ["# Grade each student on the average of all their subjects.",
     "SET $avg = AVG($ctxC, Grade)",
     "SET $low = COUNT(WHERE($ctxC, Grade, \"<\", 10))",
     "",
     "IF $avg >= 14 AND $low == 0",
     "  SET $result = \"Merit\"",
     "ELIF $avg >= 10",
     "  SET $result = \"Pass\"",
     "ELSE",
     "  SET $result = \"Fail\"",
     "ENDIF",
     "",
     "SET $obs = CONCAT(DESCRIBE($result), \" (avg \", ROUND($avg, 1), \")\")",
     "",
     "# Resit is an auxiliary label: noted on the record, never a result",
     "SET $resit = $result == \"Pass\" AND $low > 0 AND HASCLASS(\"Resit\")",
     "IF $resit",
     "  SET $obs = CONCAT($obs, \", resit required\")",
     "ENDIF"]

/-- The script of the quick grading. -/
def quickScript : String :=
  textOf
    ["IF AVG($ctxC, Grade) >= 10",
     "  SET $result = \"Pass\"",
     "ELSE",
     "  SET $result = \"Fail\"",
     "ENDIF"]

/-- The script that compares the size of cities. -/
def cityScript : String :=
  textOf
    ["SET $n = COUNT($ctxC)",
     "IF $n > 2",
     "  SET $result = \"Large\"",
     "ELSE",
     "  SET $result = \"Small\"",
     "ENDIF",
     "SET $obs = DESCRIBE($result)"]

/-- Entries whose values are strings. -/
def strings (entries : List (String × String)) : List (String × Document) :=
  entries.map fun entry => (entry.1, .str entry.2)

/-- The descriptions of grades. -/
def gradeClasses : Document :=
  .mapping (strings
    [("Merit", "Passed with merit"), ("Pass", "Passed"), ("Fail", "Failed")])

/-- The relation of enrolments of one student. -/
def sameStudent : Document := .list [.str "Student"]

/-- The full grading. -/
def grading : Document :=
  .mapping
    (strings [("item_key", "Student"), ("item_display", "Name")] ++
      [("equivalence", sameStudent)] ++
      strings [("eval_key", "Grade"), ("eval_based_key", "Subject"),
        ("eval_based_display", "Subject"), ("result_key", "Result"), ("obs_key", "Obs"),
        ("script_path", "references/examples/grading.evs")] ++
      [("classes", gradeClasses),
       ("subclasses", .mapping (strings [("Resit", "Passed, one or more subjects to resit")]))])

/-- The quick grading. -/
def gradingQuick : Document :=
  .mapping
    (strings [("mode", "simple"), ("item_key", "Student")] ++
      [("equivalence", sameStudent)] ++
      strings [("result_key", "Result"), ("script", quickScript)] ++
      [("classes", gradeClasses)])

/-- The count by city. -/
def byCity : Document :=
  .mapping
    (strings [("item_key", "Address_City"), ("eval_key", "Grade"),
        ("eval_based_key", "Subject"), ("result_key", "Result"), ("obs_key", "Obs"),
        ("script", cityScript)] ++
      [("classes", .mapping (strings
        [("Large", "More than two enrolments"), ("Small", "Two enrolments or fewer")]))])

/-- The configuration. -/
def config : Document :=
  .mapping
    [("profiles", .mapping
      [("grading", grading), ("grading_quick", gradingQuick), ("by_city", byCity)]),
     ("default_profile", .str "grading")]

/-- The place of the configuration in the directory of the program. -/
def configPath (root : String) : String := pathFrom root "configs/run_profiles.yaml"

/-- The files that come with the program. -/
def entries (root : String) : List (String × FileEntry) :=
  [(configPath root, .data config.toValue),
   (pathFrom root "references/examples/grading.evs", .text gradingScript)]

end Rubric.Shipped
