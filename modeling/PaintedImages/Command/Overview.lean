import PaintedImages.Extraction.Report

/-! An overview of a document: its pages, what became of its images, and how many records there are
of each format. Sections come with a title, a rule and labelled lines. -/
namespace PaintedImages.Overview

def bump (label : String) : List (String × Nat) → List (String × Nat)
  | [] => [(label, 1)]
  | (l, n) :: rest => if l = label then (l, n + 1) :: rest else (l, n) :: bump label rest

def formats (records : List Record) : List (String × Nat) :=
  records.foldl (fun counts record => bump record.format counts) []

def rule : String := String.ofList (List.replicate 40 '\u2500')

def labelled (label value : String) : String := label ++ ": " ++ value ++ "\n"

def numbered (label : String) (n : Nat) : String := labelled label (toString n)

def titled (title : String) (lines : List String) : String :=
  title ++ "\n" ++ rule ++ "\n" ++ String.join lines

def documentSection (file version : String) (pageCount : Nat) : String :=
  titled "Document Information"
    [labelled "File" file, labelled "Format" ("PDF " ++ version), numbered "Pages" pageCount]

def statisticsSection (policy : DecodePolicy) (s : Statistics) : String :=
  titled "Image Statistics"
    [labelled "Decode policy" policy.name,
      numbered "Pages walked" s.pagesWalked.toNat,
      numbered "Images painted" s.imagesSeen.toNat,
      numbered "Unique images" s.imagesCollected.toNat,
      numbered "Duplicates" s.duplicatesSkipped.toNat,
      numbered "Forms/other XObjects" s.nonImageXObjects.toNat]

def failureSections (s : Statistics) : List String :=
  if s.failures = some 0 then []
  else
    [titled "Skipped"
      [numbered "Unreadable pages" s.pagesSkipped.toNat,
        numbered "Unresolved names" s.unresolvedReferences.toNat,
        numbered "Malformed operators" s.malformedOperators.toNat,
        numbered "Undecodable images" s.decodeFailures.toNat]]

def formatSections (records : List Record) : List String :=
  if records.isEmpty then []
  else [titled "Formats" ((formats records).map fun (label, n) => numbered label n)]

def opening (file version : String) (pageCount : Nat) (policy : DecodePolicy) (s : Statistics) :
    String :=
  String.intercalate "\n" [documentSection file version pageCount, statisticsSection policy s]

def text (file version : String) (pageCount : Nat) (policy : DecodePolicy) (report : Report) :
    String :=
  String.intercalate "\n"
    (documentSection file version pageCount :: statisticsSection policy report.statistics ::
      (failureSections report.statistics ++ formatSections report.records))

end PaintedImages.Overview
