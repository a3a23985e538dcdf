import Reparse.Unicode.NamedSet

/-!
# Ages of characters

The versions of the standard, oldest first, with the code points that each assigned. `age?` gives
all that were assigned by a version.
-/

namespace Reparse

/-- The versions with the code points that were new in them. -/
def ages : List NamedSet :=
  [⟨["1.1", "v11"],
      ["AtIEbEcEdLHbVBKWcSbACSCEBDBFHBBBUBbSBHDBBBBBBBBSNMBcOBMBbPJcBCCCCDbCCICCcDbMCHBbNBBbMKBJ",
       "MbBFFXBOBDBBbAFTNOCcUCFBPBbECKtZDBcBCSCFDZQDBICCCWBHBBDECBBHCCCDJBECBFCVHBCGECCWBHBCBCBC",
       "CBBFECCDLEBBHPMDBHBBBDBWBHBCBFCKBDBDCBPBFKRDBICCCWBHBCCECIDCCDICECBDELRCBGDDBEDCBBBCDCDD",
       "DIBDEFDDBEJBPMODBIBDBXBKBFEHBDBEHCJCEKSCBIBDBXBKBFEHBDBEHCHBBCEKSCBIBDBXBQEGCDBEJBICEKfP",
       "cGEbDbLCBBCCBBCBGEBHBDBBBBCCBNBDCFBBBGCKCCrIbMKbNEBEdMFcQFdEeoKfZFdMGWCGCbMCGCIBBBBBBBbF",
       "CcBBPBOCGBTCDBJBbVBXbJHDbBRLbLSbEcFbAbWNdNVjIOBBeRfDbLbBLVfJVfUKdCQUGdIfPEBECbCBbJBBBEDB",
       "BHCHObFDYBOddHcEHBBdGEGCdQGbOEdQBQdSbDDbKbCbCDbYPMEbVBePEdVCbFjwBbexYyjQjxUiCHMFGZBFBBBC",
       "BCBeEbHoBQcMCcCbOMbKEMVEKBTBEEDBBBfFCBBdQCdQDGCGCGCDDHBHOD"]⟩,
    ⟨["2.0", "v20"],
      ["ccVRBNUBdmXcUBbHHbBEGBBBVDHBBfqNBuHBcatWqnSeifYCdsyOCdsyOCdsyOCdsyOCdsyOCdsyOCdsyOCdsyOC",
       "dsyOCdsyOCdsyOCdsyOCdsyO"]⟩,
    ⟨["2.1", "v21"],
      ["mjSBdgoTB"]⟩,
    ⟨["3.0", "v30"],
      ["tIEbEICSeNFbXBKFdJJTBeMBDBBBBBBBbEBMBcOBMBbQCCEdOCgABhSDdUCFBPBbQFBOBbEDbBcBbXcfHCBSDYBJ",
       "BBCHDBEGBBBISDoJBbRBXDHBBDBPCBbWbIBFBCBHDEGbAqGHBcLBBBECHBBBECbNBBBECbFBBBECHBBBECHBHBXB",
       "bFBBBECHBbNBTGbCbJdHMyGJbDDdDfNdPDKWPBKGdKIbQcwBBYGdRDbYCdHCcUBdZJkJBeRBBbEfICrPIbHBdICp",
       "IjWccEbABdLMiGbAMcIDDBnPYwMjtEbfeGbsVDSCQBMBDBBbgsCBbvVD"]⟩,
    ⟨["3.1", "v31"],
      ["bmYCdqqCbGbxWbFBEMbBgZbMCbMczdQjMKbNDgYvAdHBcTBCCBCCCEBMBBBEBCBcNBECIBHBbCBEBFBBDHBnAElE",
       "EbYpdWcleTbetDuWbpcqTBbEdS"]⟩,
    ⟨["3.2", "v32"],
      ["uYBlQBTNeACbCBfRCcFCCCCCbXQnMCmJBdnHCchJNBHLXJUMNBDBCdiXBGFEBHFNBcKCbYHdEPgMMjIOeUBbEcAk",
       "YUfVKdKIWCdMMCKiOOdMbCEQjWtSbzNDdJCICdQBjGQdDPdDPbrdICQBMBDBbgjAcHbjDBDQcBCbSBjBC"]⟩,
    ⟨["4.0", "v40"],
      ["uZBSDePCcLRdCIFDfVFtWEJJcMDfTCPBbTDbDDqUBhCBcPBBBfGBdGDNBcPBcHBeZIhLCefNBSKkCbDDMEMEBDbQ",
       "CFeDbGbdOeEbcPCiWBzJClQBkQCeMIOCbrAOcrNCbXBbRCdAEgLEdVCbFBjtOcMcoqVBcVCqXMBbABTBCBPCObIe",
       "TFDEbTDJwEbEBBfECbMdCCKbgWGCBBbSBCDBCBcyuIdJnYBbtkdAjG"]⟩,
    ⟨["4.1", "v41"],
      ["vVLkSFgDEjMCgOBbIDcPBSBcGGjHbEuHBdCBsTBbVBbmNClJCBBkGBcLBcLBbNBbFBbFBbFBPBbNBXCbFbAcgCbQ",
       "GbAGKECbGbCCCbgMdKzHCBHbXFbDEcBBdCBPByULwABdXCSLFQkKHbgHGjCbVBbVbHeDObTKcCJBQXJHBHBHBHBH",
       "BHBHBHbHYECbjUQgSBbpiTWctOXiZbSbfeAeCbfQKbfAcXuNbKEOciSEBCFIBDBbBEDEJIJcxpVcSbrAC"]⟩,
    ⟨["5.0", "v50"],
      ["wGOlNDmZBbQGQEgKBtXcHoUCBCbhICNCfiJcYEbTwLHbZCbcUEdPCcBBxBMbbMBkQEbgJHFEmENHEbulJEFClAcE",
       "bkoMbAFBirGbhVfPdVNEcogISbqUC"]⟩,
    ⟨["5.1", "v51"],
      ["bhWECCdJBhBBfKQiSFLFbGFlQStDCiOBbJBhYBbDCeEBeEBbACICUIhHBGBbDCMGDHsXCdTBDDcZBFBCBHDEGbAc",
       "MECdbEBbbXbRDMcScEDPDbZmTbCgZEdMGnSBfJBdQBcBEbyABVKDEkEBbFEbfFFEbPDFkUDBDEGnQbGYECTbdKBg",
       "GUbppOIbzOlOUbGCSIbCfBFCeDeGFeYcRJMbMdGLBgEcDJOCKCEbfsUDbhPMcAbUfAbDDbXckDbAFBcxsJBlrQbS",
       "EdW"]⟩,
    ⟨["5.2", "v52"],
      ["byQCbcCbUCPhLBcZBGBbJCeYBcfPEhLEhGFcQFdEGtSByGJvOcSgYCbUBcRcLBbDCLGKGOvAbJkGBbaUDfVDcCBx",
       "IBbaRCbDDEKBTBBEYdJBbnHFkSBNCeDHmHBboCMbplSIbxKbWqAdKmAKgKbCdWbDDdABLECeYbCEcPYFiQbUCKqo",
       "KXEbXnbBDfgCWBJhECmMbGeYcCDbDCbBFIeYcVuPbFtTcOlvQbpFctnDLFbFCBLBBBCBDBDFIBHBZBBCCBKECBeH",
       "BPbIOJcqlJgdP"]⟩,
    ⟨["6.0", "v60"],
      ["bySCjOBcKBsMbCCBiLCTBGCbBFtMGqRBQBTBwBEcVCbiOCdeNcAIEtOBzOIbCBbfJLbcCBTBBEbDBECbCBbJBBBE",
       "DJCcADYBOBOCcdKBOBbpODbseNClNCBCOKdCBbdUGCGCGJHBHbemTQhrIdAEbEbheEvXbalBCymGPCOCPBPdCBBL",
       "BBBCBDBDFIBHBKGJBBCCBKECBKcXbABCbVJVCgSbHPGBcSDUMbLBFVRPcLBBBhABEDcKSYfRFBQBDBBBBBBBDBGC",
       "EBBCEBMELbWcScGeMcuqMiO"]⟩,
    ⟨["6.1", "v61"],
      ["ccTBeMBzRBBLcDbBtDBbmRCsTBFBbVDebBDMGjWIbREecQBBBbyQCbZBFBcEChUKbraEBcnNIbJBjICWBcZCbcOX",
       "bdzZCfuUcEGCcrOZHKGcBBOcIcVHKbtUcEIKbhkOcRLbVQRbvwIEBbBBCBBCBBKBEBBBBGBEBBBBBBDBCBBCBBBB",
       "BBBBBBCBBCEBHBEBEBBBKBRFDBFBRcACyICblSEhGBQBDBBBBBBBDBGCEBBCEB"]⟩,
    ⟨["6.2", "v62"],
      ["mkGB"]⟩,
    ⟨["6.3", "v63"],
      ["ciEBjyVE"]⟩,
    ⟨["7.0", "v70"],
      ["biLBqIIdPCeOBzRBLGcYBeQBHByPBbZBcYBeXBiUKdkRIvCCpLPvXCjDPbbHDbfQHbdTBbqIDKbACbGCbIDMBIxU",
       "HbtoVGjMMLDCCcRBsUbFeVEgUbWECbfiVHbhDCTBmHbCbJBbWbRoZbOIcALBfOlZJWKIjOcLIJrWbGbGbNEMfHSH",
       "EMHbvJBiAbNdIBMBGULSBbReKcHFKHDBICCCWBHBCBFCJCCCDJBFHCHDFkHcUIKgKcCCScCcRLKwKdFMBrGcFdfI",
       "bQhUMFBbalFbFBKECdSbECGKcSKKBHBVFTbemAeDFNDJHKCIqkYhPCQczWBbGWVCuMMJBcSBWMbLBFEFMRHcTBBB",
       "hABECcLCEHbDSBbPBdIcSCNbWcSKQNDEfKdHbRMEcEIKGbOIbE"]⟩,
    ⟨["8.0", "v80"],
      ["dhRCbUBuNBnOBkABcmVBCGevOBhVCdyEEbrwVJcoUBjGBbIGmMCxMEMdCbffQCebGTBCFFhGCCQCbUyQbZNbZHGb",
       "vDEOFgEHBBBEBPBLdIBdBByJUlEbADPEQerPBiWhOlqQwLcawLLchZzCPFBPjhDDdACdBFbKIjVBcXFjJCfJBwDJ",
       "dZFcHBcucLinQ"]⟩,
    ⟨["9.0", "v90"],
      ["dhUIWPbjPBhYBEDBHXDfrZJoGBchBEdxCCbtzLBkSBbhqDCbeVbKEbKfaOBrHdMBBBBtUNccXJBbTBOKbDDbGCWB",
       "ObfmVBbFjbPTbdBbgfLHBRCHBCBFdiZcXFKECddBSfMBbfYBbPBlOCbHDvAGBIIBCMBMEPbMN"]⟩,
    ⟨["10.0", "v100"],
      ["deMLpLCjSGtSBcGCfyWBjUEbbHBbfZBczAByCFbcMBbpxNVblpIDiqQcUIcACXBFxHHBCBbSDBBCBJIKbfgPByhK",
       "kZdDpGyaEGbrPCbICtZMTBIIBCZBSNbMGcEXdcpDlbL"]⟩,
    ⟨["11.0", "v110"],
      ["caYBbNBdYBuFDiDBlMBePBpHBeXBenRBboHbRCDfrMDWZEPwPFbcIBbpyHFcyHBICmMCbkvCCSBbaTbOIKrMbOIb",
       "QoHBeODtGBlEBbaXBiVcIxLBbbEGBCBbLBCBGHKlYZbeaPdNjpIFbcjUUeWHjlWcQbsCBceZBiLEoIDbCFCEDBBE",
       "YLNKHCbKZdSO"]⟩,
    ⟨["12.0", "v120"],
      ["esTBuGBCBCBBGEBHBHCCBNBfkHBfpUBcBBwTBbtzMGCFbjRCbmbGXbrKBxCBbcPICbUCLgDCbzMbYNBhqUJwjKGE",
       "BbVJdMCjcWGprCDREsaQbTDOCKECoEcGFBcjZBbkNcJbpEBcbGBbKBiVMlDDbVBbXBJBbPGDCKGDICDbWdGbCEED",
       "FDNG"]⟩,
    ⟨["12.1", "v121"],
      ["tiDB"]⟩,
    ⟨["13.0", "v130"],
      ["diCKzDBqOBeUBfaJCgjUBbaUDbhOFkpIKbfdGNcySEbQCcBBbfVEbgqQBewXbQBDCCjUbCoPBfECzABFCbtMHCBC",
       "IBCBbEBCCMJKckKBbejRBLCkfXsPbQJblwUDdPDcJBbyUCbJCqTCdMBdXBECbQCGDbDBgMBOEPTHHJDNHbPfRBcD",
       "bLKcmsJHbhtQhhZ"]⟩,
    ⟨["14.0", "v140"],
      ["ciFBwWbFBCGIVBSLbhPBbGBeXBdwHBHBJBjFBbaNOeVBbWCyLBbbHBeiOBbVBtFLbraTDcyICOCBBBFYDbftDBoR",
       "QeXBbUCcvGLBPBHBCBLBPBHBCrJGBbQBJcxXbAiWGcYBcgSBfEHbhPQhwYdVwdXdBBKbaeWEBHBClCEliBbUCXJe",
       "MvDCeyVbFbhXbFbzDHBEBCBPfqKDkMBpCBdEBgSCbSEKEIDRDGIIHcncPCgeVE"]⟩,
    ⟨["15.0", "v150"],
      ["exNBsGBdtaKDbfZDdiCKbnARBbPDbChxDBJbDbvhKBbIBmrAUerHGkBcKbHBbpWbQguCBfVDEFdLBzRDPCbKDLDB",
       "BOCKCMBOCcthOBbiwSgfG"]⟩,
    ⟨["15.1", "v151"],
      ["seMEtBBkeiQxY"]⟩,
    ⟨["16.0", "v160"],
      ["dgPBhcGCbVBkFCcwYDffECbsqVDMDbjoLcActWbMDbDIClUDcDBbsLKBBCBBbMBKBBCBBEBKBCICbcVUbvWbIOKb",
       "hGBhyZfxRkzTcGeoKcGlyJBxwIjQGqUitObREBhcCKECrNBFBbUBHBVBCBJBiRbL"]⟩]

/-- The code points of the versions up to the one that goes by a name. -/
def ageFrom (older : CodeSet) (name : String) : List NamedSet → Option CodeSet
  | [] => none
  | version :: versions =>
    let known := older.union version.codes
    if version.names.contains name then some known else ageFrom known name versions

/-- The code points that were assigned by the version that goes by a name. -/
def age? (name : String) : Option CodeSet := ageFrom CodeSet.empty name ages

end Reparse
