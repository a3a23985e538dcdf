import Reparse.Unicode.CodeSet

/-!
# Case folding

Characters that differ only in case form a class, such as the two forms of a letter, or three when
a letter has two lower-case forms. `CodeSet.foldCase` adds to a set the other members of each class
that it meets.
-/

namespace Reparse

/-- The classes of characters that differ only in case, in the order of their first members. A class
is written as the step from the first member of the class before to its own, the steps between its
members, and a zero. -/
def caseClassSteps : List String :=
  ["cNbGABbGABbGABbGABbGABbGABbGABbGABbGABbGABbGmkLABbGABbGABbGABbGABbGABbGABbGABbGkIABbGABbGABbGA",
   "BbGABbGABbGABbGAdNbcPbGALbGABbGABbGABbGABbGABbGmfUABbGABbGABbGABbGABbGABbGABbGABbGABbGABbGABbG",
   "ABbGABbGABbGABbGABbGABbGACbGABbGABbGABbGABbGABbGABbGABlgXAbGeRABBACBACBACBACBACBACBACBACBACBAC",
   "BACBACBACBACBACBACBACBACBACBACBACBACBACBAEBACBACBADBACBACBACBACBACBACBACBADBACBACBACBACBACBACB",
   "ACBACBACBACBACBACBACBACBACBACBACBACBACBACBACBACBADBACBACBADhNABiCABBACBAChYABBAChXABhXABBADdBA",
   "BhUABhVABBAChXABhZABdTABiDABiBABBACgHABckyZABiDABiFABfAABiGABBACBACBACiKABBACiKADBACiKABBACiJA",
   "BiJABBACBACiLABBAEBADcEAFBBADBBADBBADBACBACBACBACBACBACBACBADBACBACBACBACBACBACBACBACBADBBADBA",
   "EBACBACBACBACBACBACBACBACBACBACBACBACBACBACBACBACBACBACBACBAEBACBACBACBACBACBACBACBACBAIpzFABB",
   "ADpzCABpzZABpzZABBADcRABcTABBACBACBACBACBACpyTABpyQABpySAKckpRAFckpNADckqPABckoEABckpGAEckpGAB",
   "pxFABckpDAFpxLAMpwPAFckpFAFckoGAWcknLABcknIAgLdGbGkpXAbRBACBAEBAFfAABfAABfAACeMAHbMACbLABbLABb",
   "LACcMACcLABcLABksHABbGABbGbEABbGABbGABbGcMABbGABbGABbGZbJACbGcCABbGACbGABbGABbGABbGWABbGbWACbF",
   "BABbGABbGABbGPABbGABbGABbGldDABbGABbGAFkrRAbFIAJBACBACBACBACBACBACBACBACBACBACBACBAEHAFBADBAGd",
   "CABdCABdCABdCABdCABdCABdCABdCABdCABdCABdCABdCABdCABdCABdCABdCABbGABbGABbGjfIABbGABbGjfHABbGABb",
   "GABbGABbGABbGABbGABbGABbGABbGABbGjeYABbGABbGABbGjeWABbGjeWBABbGABbGABbGABbGABbGABbGABbGABbGjeQ",
   "ABbGABbGABbGABbGABbGAbXBACBjdSACBACBACBACBACBACBACBACBACBACBACBACBACBACBACBAKBACBACBACBACBACBA",
   "CBACBACBACBACBACBACBACBACBACBACBACBACBACBACBACBACBACBACBACBACBACPABBACBACBACBACBACBACBADBACBAC",
   "BACBACBACBACBACBACBACBACBACBACBACBACBACBACBACBACBACBACBACBACBACBACBACBACBACBACBACBACBACBACBACB",
   "ACBACBACBACBACBACBACBACBACBACBACBACBACBACBADbWABbWABbWABbWABbWABbWABbWABbWABbWABbWABbWABbWABbW",
   "ABbWABbWABbWABbWABbWABbWABbWABbWABbWABbWABbWABbWABbWABbWABbWABbWABbWABbWABbWABbWABbWABbWABbWAB",
   "bWABbWAehEktKABktKABktKABktKABktKABktKABktKABktKABktKABktKABktKABktKABktKABktKABktKABktKABktKA",
   "BktKABktKABktKABktKABktKABktKABktKABktKABktKABktKABktKABktKABktKABktKABktKABktKABktKABktKABktK",
   "ABktKABktKACktKAGktKADelSABelSABelSABelSABelSABelSABelSABelSABelSABelSABelSABelSABelSABelSABel",
   "SABelSABelSABelSABelSABelSABelSABelSABelSABelSABelSABelSABelSABelSABelSABelSABelSABelSABelSABe",
   "lSABelSABelSABelSABelSABelSABelSABelSABelSABelSADelSABelSABelSAzXcfmUABcfmUABcfmUABcfmUABcfmUA",
   "BcfmUABcfmUABcfmUABcfmUABcfmUABcfmUABcfmUABcfmUABcfmUABcfmUABcfmUABcfmUABcfmUABcfmUABcfmUABcfm",
   "UABcfmUABcfmUABcfmUABcfmUABcfmUABcfmUABcfmUABcfmUABcfmUABcfmUABcfmUABcfmUABcfmUABcfmUABcfmUABc",
   "fmUABcfmUABcfmUABcfmUABcfmUABcfmUABcfmUABcfmUABcfmUABcfmUABcfmUABcfmUABcfmUABcfmUABcfmUABcfmUA",
   "BcfmUABcfmUABcfmUABcfmUABcfmUABcfmUABcfmUABcfmUABcfmUABcfmUABcfmUABcfmUABcfmUABcfmUABcfmUABcfm",
   "UABcfmUABcfmUABcfmUABcfmUABcfmUABcfmUABcfmUABcfmUABcfmUABcfmUABcfmUABcfmUABIABIABIABIABIABIAdg",
   "LcaeKBABBAjGcagYAEfqSARcaiYAeKBACBACBACBACBACBACBACBACBACBACBACBACBACBACBACBACBACBACBACBACBACB",
   "ACBACBACBACBACBACBACBACBACBACBACBACBACBACBACBACBACBACBACBACBACBACBACBACBACBACBACBcGACBACBACBAC",
   "BACBACBACBACBACBACBACBACBACBACBACBACBACBACBACBACBACBACBACBACBACBACBAMBACBACBACBACBACBACBACBACB",
   "ACBACBACBACBACBACBACBACBACBACBACBACBACBACBACBACBACBACBACBACBACBACBACBACBACBACBACBACBACBACBACBA",
   "CBACBACBACBACBACBACBACBACIABIABIABIABIABIABIABIAJIABIABIABIABIABIALIABIABIABIABIABIABIABIAJIAB",
   "IABIABIABIABIABIABIAJIABIABIABIABIABIAMIACIACIACIAJIABIABIABIABIABIABIABIAJcWABcWABdIABdIABdIA",
   "BdIABdWABdWABeYABeYABeIABeIABeWABeWADIABIABIABIABIABIABIABIAJIABIABIABIABIABIABIABIAJIABIABIAB",
   "IABIABIABIABIAJIABIACJAQJANIABIAPIABIAEHAOJAmHbCAbUQABQABQABQABQABQABQABQABQABQABQABQABQABQABQ",
   "ABQAUBAbfNbAABbAABbAABbAABbAABbAABbAABbAABbAABbAABbAABbAABbAABbAABbAABbAABbAABbAABbAABbAABbAAB",
   "bAABbAABbAABbAABbAAcsVbWABbWABbWABbWABbWABbWABbWABbWABbWABbWABbWABbWABbWABbWABbWABbWABbWABbWAB",
   "bWABbWABbWABbWABbWABbWABbWABbWABbWABbWABbWABbWABbWABbWABbWABbWABbWABbWABbWABbWABbWABbWABbWABbW",
   "ABbWABbWABbWABbWABbWABbWAbXBAHBACBACBAHBADBALBACBACBACBACBACBACBACBACBACBACBACBACBACBACBACBACB",
   "ACBACBACBACBACBACBACBACBACBACBACBACBACBACBACBACBACBACBACBACBACBACBACBACBACBACBACBACBACBACBACBA",
   "CBACBAJBACBAFBAbtyKBACBACBACBACBAEBACBACBACBACBACBACBACBACBACBACBACBACBACBACBACBACBAUBACBACBAC",
   "BACBACBACBACBACBACBACBACBACBACBAfGBACBACBACBACBACBACBAEBACBACBACBACBACBACBACBACBACBACBACBACBAC",
   "BACBACBACBACBACBACBACBACBACBACBACBACBACBACBACBACBACBALBACBADBACBACBACBACBAFBAFBACBACbWACBACBAC",
   "BACBACBACBACBACBACBACBALbjSABBACBACBACBACBACBACBACBAFBACBADBAEBAGBACBACBAbBBAbflWBAboMbGABbGAB",
   "bGABbGABbGABbGABbGABbGABbGABbGABbGABbGABbGABbGABbGABbGABbGABbGABbGABbGABbGABbGABbGABbGABbGABbG",
   "AbvAbOABbOABbOABbOABbOABbOABbOABbOABbOABbOABbOABbOABbOABbOABbOABbOABbOABbOABbOABbOABbOABbOABbO",
   "ABbOABbOABbOABbOABbOABbOABbOABbOABbOABbOABbOABbOABbOABbOABbOABbOABbOAfHbOABbOABbOABbOABbOABbOA",
   "BbOABbOABbOABbOABbOABbOABbOABbOABbOABbOABbOABbOABbOABbOABbOABbOABbOABbOABbOABbOABbOABbOABbOABb",
   "OABbOABbOABbOABbOABbOABbOAgBbNABbNABbNABbNABbNABbNABbNABbNABbNABbNABbNACbNABbNABbNABbNABbNABbN",
   "ABbNABbNABbNABbNABbNABbNABbNABbNABbNACbNABbNABbNABbNABbNABbNABbNACbNABbNAcqDcMABcMABcMABcMABcM",
   "ABcMABcMABcMABcMABcMABcMABcMABcMABcMABcMABcMABcMABcMABcMABcMABcMABcMABcMABcMABcMABcMABcMABcMAB",
   "cMABcMABcMABcMABcMABcMABcMABcMABcMABcMABcMABcMABcMABcMABcMABcMABcMABcMABcMABcMABcMABcMABcMAgCb",
   "GABbGABbGABbGABbGABbGABbGABbGABbGABbGABbGABbGABbGABbGABbGABbGABbGABbGABbGABbGABbGABbGAegPbGABb",
   "GABbGABbGABbGABbGABbGABbGABbGABbGABbGABbGABbGABbGABbGABbGABbGABbGABbGABbGABbGABbGABbGABbGABbGA",
   "BbGABbGABbGABbGABbGABbGABbGAbgjXbGABbGABbGABbGABbGABbGABbGABbGABbGABbGABbGABbGABbGABbGABbGABbG",
   "ABbGABbGABbGABbGABbGABbGABbGABbGABbGABbGABbGABbGABbGABbGABbGABbGAbulLbIABbIABbIABbIABbIABbIABb",
   "IABbIABbIABbIABbIABbIABbIABbIABbIABbIABbIABbIABbIABbIABbIABbIABbIABbIABbIABbIABbIABbIABbIABbIA",
   "BbIABbIABbIABbIA"]

/-- The classes that numbers write, given the first member of the class before, or of the class
being read, whose members so far are given with the last one first. -/
def caseClassesFrom (first : Nat) (members : List Nat) : List Nat → List (List Nat)
  | [] => []
  | number :: numbers =>
    match members with
    | [] => caseClassesFrom (first + number) [first + number] numbers
    | last :: _ =>
      if number = 0 then members.reverse :: caseClassesFrom first [] numbers
      else caseClassesFrom first ((last + number) :: members) numbers

/-- The classes of characters that differ only in case. -/
def caseClasses : List (List Nat) := caseClassesFrom 0 [] (CodeSet.numbers caseClassSteps)

namespace CodeSet

/-- A set with every character that differs from a member only in case. -/
def foldCase (set : CodeSet) : CodeSet :=
  set.union (ofList (caseClasses.filter fun members => members.any set.contains).flatten)

/-- A set with both forms of every ASCII letter of which it has one. -/
def foldCaseAscii (set : CodeSet) : CodeSet :=
  let letters := (List.range 26).map fun index => ['A'.toNat + index, 'a'.toNat + index]
  set.union (ofList (letters.filter fun members => members.any set.contains).flatten)

end CodeSet

end Reparse
