import Reparse.Unicode.NamedSet

/-!
# Properties of characters

The properties that a character has or lacks, each with its names and the characters that have it.
-/

namespace Reparse

/-- The properties with the characters that have them. -/
def characterProperties : List NamedSet :=
  [⟨["alpha", "alphabetic"],
      ["cNbAGbAbVBKBEBFXBbFBrQEMOFHBBBdIBbDSBCCEBBGBBDBBBUBdFBfJIgKBbMCBGbPbNOBBBCBCBBIbBEEbDLFc",
       "EBHOdYBIEIEDKDCBQbWNdXYbHJCEBFYCTTZHLFYBGIBIbQKMDHGcYBQBDEPNTBICCCWBHBBDEDICCCCBBIBECBFM",
       "CKBEDBGECCWBHBCBCBCEFECCCEBHEBBRGLDBJBDBWBHBCBFDJBDBCDBPEVEEDBICCCWBHBCBFDICCCCJCECBFNBQ",
       "CBGDDBEDCBBBCDCDDDMEFDDBDDBGBbONBDBXBQDIBDBDICBDCBCEbCEBIBDBXBKBFDIBDBDICGCBENDMNBDBbPCI",
       "BDBDBBFEHFWGBDBSDYBJBBCHIGBBBISCNcGFHGBbZCBBBFBYBBBTBDCFBBGBOEbGBcLIBbKETEQBbKcPcDBBCFQc",
       "MKECbMBBFBCbRBmVBECHBBBECbPBECbHBECHBBBECPBcFBECcPbLQQdICGDxWCRBbAFcXDLHULVMUMNBDBCMcACT",
       "OBEBcPdLHbRFcSKbFBMEJXbECFLbSEbAcCbCEcLCUbYBXCLDbXcABPBIbZbQCEKbSBLOcDWDKbKCLFbRCDbPEBGB",
       "CDBFhKTbILkSCGCbMCGCIBBBBBBBbFCcBBHBBDDBHDECGENFDBHeMBNBQNdXBEBCKBBDFGBBBBBBEBLCEFFEBRbP",
       "bfHcAcrUiVGEDCMbMBBFBCcEHBQXJHBHBHBHBHBHBHBHBbGbVBsBDZJHFCFEdIGDBdMBEFbRBdQRbGbWQtSjtOcM",
       "bguFcPbUCkJDQKCUbVFIDeJbNJCdZCcPCCBBBIVUBbHYcAMcQBBbSGDBBDKbHFbJNbDDbZBMPBQQKFBcDJOSXDcR",
       "BBBBYDCQCELGCGCGJHBHBbRBOGeTVqnSMXEbXmnCoCCeCbMHMFFMBNBFBBBCBCBeEbHnZScMCcCbOMeMFBfFbKbA",
       "GbALdLDGCGCGCDbJMBbABTBCBPCObIeTcRcBkHbDDbXbVbGNbEFbRFbECbKEIBFbQgCSbKEbKEbOIcAMLBPBHBCB",
       "LBPBHBCDcAMlZJWKIYGBbQBJcRGCBBbSBCDBCXKXJbFcNTBCKWKbAcScEGCcMEBCFIBDBbDbQbDDbDbJIBbCbBcC",
       "KWKTNSeGcVcDbZNbZNbObIbCDBFXjQbQBCDCQDcDBDbDKBIWbQSbUVbBXJcSbRFKcFJBNZXbZREIbJDBJcMBEJCK",
       "BBBbJSBbICBGEcKHBBBEBPBKHcFXEBICCCWBHBCBFDICCCCDBGBFHbCKBBCBBbMBKBBCBBEBCDBBBbScOBDBEUDb",
       "EcOCCBBhCcCCHZGbIcLBBDBcHcCCBcTbBCOVHhDcFdZcMbFICBCIBCBbEBCCCCEdPICbUCGBBBCbBbZCKRcUFBSc",
       "VhRbHbFJBbTBHBBbXbECWBOcVHBCBbSDBBCBDBBCCYGBCBbLBCBEBBmPXJRBbPDDeHBdBbjMdYeHRhOdxKdTPbpG",
       "RGZfxRFwLkdDbVcpDvXHbFRdBRbESbWQEbFVFTqQbTiDcMeYcXEcFHRcMCBBMCOjcAIbvQbPKnfREBHBCBlFPBbD",
       "DCBOEIpGdkUeDFNDJHKEBiwFdHBcTBCCBCCCEBMBBBHBcNBECIBHBbCBEBFBBDHBnCCZBZBbFBZBbFBZBbFBZBbF",
       "BZBIcsYbFGGiFHBRCHBCBFFcKbHBeIbTKHQBmJbESbSsQbCiUbECBtBHBEBCBPBhPcHcQDBDBbuIEBbBBCBBCBBK",
       "BEBBBBGBEBBBBBBDBCBBCBBBBBBBBBBCBBCEBHBEBEBBBKBRFDBFBRyEbAGbAGbAfmKclfCbGgdUGiOCinQOlbLP",
       "xYdqWuWcfYhhZFgfG"]⟩,
    ⟨["ahex", "asciihexdigit"],
      ["bWKHGbAG"]⟩,
    ⟨["bidic", "bidicontrol"],
      ["ciEBjvLCbAFcDE"]⟩,
    ⟨["ci", "caseignorable"],
      ["bNBGBLBbJBBBcTBEBBBEBCCtJhKECEBJCBBjRHhZBFBbXbTBBBCBCBBbSBLGKLBBbJBKVQBdXIBKBEbHBBBbEbBd",
       "NLcGLEBCBYYbRDbSBHCFJbPcGcDBBBEIEBDHKCNBPBcGBEEIBUCbABCCcFBECECCDDBbECDBLCcFBEFBCEBUCWGB",
       "BcGBCBBEIBHCLCbEBcJBMBbYBDBcDBBDFDBEHCLCbDBcGBCBGBFCUCbCCcFCEEIBUCbDBcUBHDBBdMBCHLJdUBCJ",
       "JBBHcVCbBBBBBBcDOBFBCFLBbKJBdYEBGBCCCZCEDQENBCCGBPBdQBxKDbkKDbDCbECbECcMCBHIBCLDBFBbTFbZ",
       "BcNCbIBeODECJBGDiLCCBcGBBHBBBBCIGKCBbNBIbFbXEbWBBFBBFBbOJMCbGECCBDcEBBCDBBDcGICCcMGdEDBN",
       "BHEBGBDCbYcLNBbIdXrDBBDLDNDNDNCMFICKBCBCFbXFBKBBNBQNbZbHejRCeJDeVBPBdSbGbVBsBBbKEDFFBdPG",
       "dPDbqbUBbwCGkKBdUEBKBBbCEdCCObIdABXDdZDDCIBDBEBZCFBfVCbASNBbMIZLbUDbWBCECCRBVCcOGCCCCMBI",
       "BbJBLBbZBBDCCFCBBbBBOCFCBBdWFJDeRBCBEBbdzSBfRRwBQDBMQbIBCBgNBHBGBLBbJBBBbVBbTCcPBVDtTBiS",
       "BfTFbnPGBbQBJwKDBCFEbODEBgJCwBEbMBbAFBBmDCdBEcSLbXEeTBcCPbPBCCKDbXECCCBEBKBbYDbKFBIcKBMC",
       "cAJKECBdRDCBBCGBCBgBBDIVCcFCDBbLHDFcSGNBBBBBOCdHICDBBXBdGGBBECBCjEEGCBCbBCdHICBBCeCBBBCG",
       "BBdXBBBCEBFjZJBCjWCBBEBfOECCEBbGKbOGCEIBJGCDbUNBCpQHBGBBdEWCHBCBCeSGDBBCBHBBcUCDBBBnJCLC",
       "cAFFBBBXBhxDRGPqyYMDDdsAFcHHJEtODbOCsOBcLRcMCBCygPEBHBCeuGCBEgyUbUCXuYDJQCHbEEfSDcyDcDEb",
       "YIBOBWFBPcaIHBRCHBCBFFcKbHBgEOoEBcJEtNFjUCbcIHeFIebFFbsxxPBbEdSeYjG"]⟩,
    ⟨["cased"],
      ["cNbAGbAbVBKBEBFXBbFBhNBEEiABbKHCbEFdSBbQECCCEBBGBBDBBBUBdFBfJIgKBbMJbPefFbMBBFBCbRBEzWdI",
       "CGdfULFbRCDcMhKcMkSCGCbMCGCIBBBBBBBbFCcBBHBBDDBHDECGENFDBHeMBNBQNdXBEBCKBBDFGBBBBBBEBGEB",
       "CEFFEBRbGDCbfLcAcrUiVGEDCMbMBBFBbtwCbUSbEfCdYDEBcKCCBBBIVFBDbfPbRBOGdCbeaIHMFbnTbAGbAbtT",
       "dCdSbKEbKeMLBPBHBCBLBPBHBCrJBCDBbQBJbuZbZNbZdPWKWefIcMbgiQcMbmlKdHBcTBCCBCCCEBMBBBHBcNBE",
       "CIBHBbCBEBFBBDHBnCCZBZBbFBZBbFBZBbFBZBbFBZBIcsYKBUGGkBcKdgKcQdaAbAGbAGbA"]⟩,
    ⟨["cwcf", "changeswhencasefolded"],
      ["cNbAdMBKXBIbGBBBBBBBBBBBBBBBBBBBBBBBBBBBBBBBBBBBBBBBBBBBBBBBBBBBBBBBCBBBBBBBBBBBBBBBBCBB",
       "BBBBBBBBBBBBBBBBBBBBBBBBBBBBBBBBBBBBBBBBBBBCBBBBBBBCBBBCBDCEBCBDDCBCBBBBBCBBCBBCBDBBBCDB",
       "HCBCBCBBBBBBBBBBBBBBBBCBBBBBBBBBBBBBBBBBCCBBBDBBBBBBBBBBBBBBBBBBBBBBBBBBBBBBBBBBBBBBBBBB",
       "BBBBBBBBBBBBBBBBHCBCCBBEBBBBBBBBjMBbQBBBDBIBGBBDBBBCBRBJWBMDDCBBBBBBBBBBBBBBBBBBBBBBBBBC",
       "CCBBBCCbZbWBBBBBBBBBBBBBBBBBBBBBBBBBBBBBBBBBJBBBBBBBBBBBBBBBBBBBBBBBBBBBBBBBBBBBBBBBBBBB",
       "BBBBBBBBBBBCBBBBBBBBBBBBCBBBBBBBBBBBBBBBBBBBBBBBBBBBBBBBBBBBBBBBBBBBBBBBBBBBBBBBBBBBBBBB",
       "BBBBBBBBBBBBBBBBBBBBBBBBBBBBBBBBCbMbWBefGbMBBFBbfEGdfUKGbRCDmIBBBBBBBBBBBBBBBBBBBBBBBBBB",
       "BBBBBBBBBBBBBBBBBBBBBBBBBBBBBBBBBBBBBBBBBBBBBBBBBBBBBBBBBBBBBBBBBBBBBBBBBBBBBBBBBBBBBBBB",
       "BBBBBBBBBBBBBBBBBBBBBBBBBBBBBBBBBBBFCCBBBBBBBBBBBBBBBBBBBBBBBBBBBBBBBBBBBBBBBBBBBBBBBBBB",
       "BBBBBBBBBBBBBBBBBBBBBBBBBBBBBBBBBBBBBBBBBBBBBBBJIIGKIIIIGLBBBBBBBIIQbWCDCGFDCGLEMFFDCGlL",
       "BDCGBbTQTBbfMbAcsUbWbWBBDCBBBBBBEBBCBIDBBBBBBBBBBBBBBBBBBBBBBBBBBBBBBBBBBBBBBBBBBBBBBBBB",
       "BBBBBBBBBBBBBBBBBBBBBBBBBBBBBBBBBBBBBBBBBBBBBBBBBIBBBEBbtyJBBBBBBBBBBBBBBBBBBBBBBBBBBBBB",
       "BBBBBBBBBBBBBBBBTBBBBBBBBBBBBBBBBBBBBBBBBBBBfFBBBBBBBBBBBBBDBBBBBBBBBBBBBBBBBBBBBBBBBBBB",
       "BBBBBBBBBBBBBBBBBBBBBBBBBBBBBBBBBKBBBBCBBBBBBBBEBBBCBBBDBBBBBBBBBBBBBBBBBBBBFBFBBBBBBBBB",
       "BBBBBBEBBBCDBFBBBBBBBYBbiGdCbeaIHMFbnTbAbuZbOfGbKgALBPBHBCcqCbZgBWegObGbgjWbGbulKbI"]⟩,
    ⟨["cwcm", "changeswhencasemapped"],
      ["cNbAGbAcGBKXBbFBcMBdGBbCCOCCBBEdPBSGbBBCBBBCDCBEBFCBBCCBHBCBBCDGFBKCgKBbQECCDDBBGBBDBBBU",
       "BbVDbHBFBfDIgKBbMKbNefGbMBBFBCbRCDzWdICGdfULFbRCDhDBDBQBeJgACBBeOCGCbMCGCIBBBBBBBbFCcBBH",
       "BBDDBHDECGENFDBHlLBDCGBbBBRbGDCbfLcAcrUeJBCBCHdYHEDCMbMBBFBbtwCbUSbCfEOCcKJPDDCFBZBbECCE",
       "HYCbhCBbCdCbeaIHMFbnTbAGbAbtTdCdSbKEbKeMLBPBHBCBLBPBHBCcoPbZNbZdPWKWefIcMbgiQcMbukEcQ"]⟩,
    ⟨["cwl", "changeswhenlowercased"],
      ["cNbAdXXBHbHBBBBBBBBBBBBBBBBBBBBBBBBBBBBBBBBBBBBBBBBBBBBBBBBBBBBBBBCBBBBBBBBBBBBBBBCBBBBB",
       "BBBBBBBBBBBBBBBBBBBBBBBBBBBBBBBBBBBBBBBBBCBBBBDCBBBCBDCEBCBDDCBCBBBBBCBBCBBCBDBBBCDBHCBC",
       "BCBBBBBBBBBBBBBBBBCBBBBBBBBBBBBBBBBBCCBBBDBBBBBBBBBBBBBBBBBBBBBBBBBBBBBBBBBBBBBBBBBBBBBB",
       "BBBBBBBBBBBBHCBCCBBEBBBBBBBBlDBBBDBIBGBBDBBBCBRBJbJBIBBBBBBBBBBBBBBBBBBBBBBBFBCBBCCbZbWB",
       "BBBBBBBBBBBBBBBBBBBBBBBBBBBBBBBBJBBBBBBBBBBBBBBBBBBBBBBBBBBBBBBBBBBBBBBBBBBBBBBBBBBBBBBC",
       "BBBBBBBBBBBBCBBBBBBBBBBBBBBBBBBBBBBBBBBBBBBBBBBBBBBBBBBBBBBBBBBBBBBBBBBBBBBBBBBBBBBBBBBB",
       "BBBBBBBBBBBBBBBBBBBBCbMehDbMBBFBbbUdIdgLBGbRCDmIBBBBBBBBBBBBBBBBBBBBBBBBBBBBBBBBBBBBBBBB",
       "BBBBBBBBBBBBBBBBBBBBBBBBBBBBBBBBBBBBBBBBBBBBBBBBBBBBBBBBBBBBBBBBBBBBBBBBBBBBBBBBBBBBBBBB",
       "BBBBBBBBBBBBBBBBBBBBBJBBBBBBBBBBBBBBBBBBBBBBBBBBBBBBBBBBBBBBBBBBBBBBBBBBBBBBBBBBBBBBBBBB",
       "BBBBBBBBBBBBBBBBBBBBBBBBBBBBBBBJIIGKIIIIGLBBBBBBBIIYIIIIIIFLFLEMFLFlLBDCGBbTQTBbfMbAcsUb",
       "WbWBBDCBBBBBBEBBCBIDBBBBBBBBBBBBBBBBBBBBBBBBBBBBBBBBBBBBBBBBBBBBBBBBBBBBBBBBBBBBBBBBBBBB",
       "BBBBBBBBBBBBBBBBBBBBBBBBBBBBBBIBBBEBbtyJBBBBBBBBBBBBBBBBBBBBBBBBBBBBBBBBBBBBBBBBBBBBBTBB",
       "BBBBBBBBBBBBBBBBBBBBBBBBBfFBBBBBBBBBBBBBDBBBBBBBBBBBBBBBBBBBBBBBBBBBBBBBBBBBBBBBBBBBBBBB",
       "BBBBBBBBBBBBBBKBBBBCBBBBBBBBEBBBCBBBDBBBBBBBBBBBBBBBBBBBBFBFBBBBBBBBBBBBBBBEBBBCDBFBBBBB",
       "BBYBbhaHbAbuZbOfGbKgALBPBHBCcqCbZgBWegObGbgjWbGbulKbI"]⟩,
    ⟨["cwt", "changeswhentitlecased"],
      ["dTbAcGBbPYBIBBBBBBBBBBBBBBBBBBBBBBBBBBBBBBBBBBBBBBBBBBBBBBBBBBBBBBBBCBBBBBBBBBBBBBBCBBBB",
       "BBBBBBBBBBBBBBBBBBBBBBBBBBBBBBBBBBBBBBBBBBCBBBBDCBBBCBDBFBCBDDCBCBBBBBCBEBCBDBBBCBDBBBEB",
       "BCBCBBBBBBBBBBBBBBBBBCBBBBBBBBBBBBBBBBBDBBBBDBBBBBBBBBBBBBBBBBBBBBBBBBBBBBBBBBBBBBBBDBBB",
       "BBBBBBBBBBBBBBIBCCBBEBBBBBBBBGBCBBBCDCBEBFCBBCCBHBCBBCDGFBKCgKBbRBBBDBDDSBbBbJBCDDBBBBBB",
       "BBBBBBBBBBBBBBBBBFBBCBCBcAbWBBBBBBBBBBBBBBBBBBBBBBBBBBBBBBBBBBJBBBBBBBBBBBBBBBBBBBBBBBBB",
       "BBBBBBBBBBBBBBBBBBBBBBBBBBBBCBBBBBBBBBBBBCBBBBBBBBBBBBBBBBBBBBBBBBBBBBBBBBBBBBBBBBBBBBBB",
       "BBBBBBBBBBBBBBBBBBBBBBBBBBBBBBBBBBBBBBBBBBBBBBBBBBbXbNfmEGdfUJBBjEBDBQBeKBBBBBBBBBBBBBBB",
       "BBBBBBBBBBBBBBBBBBBBBBBBBBBBBBBBBBBBBBBBBBBBBBBBBBBBBBBBBBBBBBBBBBBBBBBBBBBBBBBBBBBBBBBB",
       "BBBBBBBBBBBBBBBBBBBBBBBBBBBBBBBBBBBBBBBBBBBBBHFBBBBBBBBBBBBBBBBBBBBBBBBBBBBBBBBBBBBBBBBB",
       "BBBBBBBBBBBBBBBBBBBBBBBBBBBBBBBBBBBBBBBBBBBBBBBBBBBBBJIGKIIIIGKIIIIOCIIIIIIFBCGBDDBCIECC",
       "IIKDBCnEBbHQEBbgLbActQbWBBDCBBBBBBGBCBKBBBBBBBBBBBBBBBBBBBBBBBBBBBBBBBBBBBBBBBBBBBBBBBBB",
       "BBBBBBBBBBBBBBBBBBBBBBBBBBBBBBBBBBBBBBBBBBBBBBBBBBIBBBEBMbMBBFBbtwDBBBBBBBBBBBBBBBBBBBBB",
       "BBBBBBBBBBBBBBBBBBBBBBBBTBBBBBBBBBBBBBBBBBBBBBBBBBBBfFBBBBBBBBBBBBBDBBBBBBBBBBBBBBBBBBBB",
       "BBBBBBBBBBBBBBBBBBBBBBBBBBBBBBBBBBBBBBBBBKBBBCBBBBBBBBBEBEBBCCBBBBBBBBBBBBBBBBBBBLBBBBBB",
       "BBBBBBBBBEBBBCBDBFBBBBBbABbhCBbCdCbeaIHMFboZbAbvHbOfGbKfZLBPBHBCcrBbZeVWegObGbgjWbGbulMb",
       "I"]⟩,
    ⟨["cwu", "changeswhenuppercased"],
      ["dTbAcGBbPYBIBBBBBBBBBBBBBBBBBBBBBBBBBBBBBBBBBBBBBBBBBBBBBBBBBBBBBBBBCBBBBBBBBBBBBBBCBBBB",
       "BBBBBBBBBBBBBBBBBBBBBBBBBBBBBBBBBBBBBBBBBBCBBBBDCBBBCBDBFBCBDDCBCBBBBBCBEBCBDBBBCBDBBBFC",
       "BCBCBBBBBBBBBBBBBBBCBBBBBBBBBBBBBBBBBCBCBBDBBBBBBBBBBBBBBBBBBBBBBBBBBBBBBBBBBBBBBBDBBBBB",
       "BBBBBBBBBBBBIBCCBBEBBBBBBBBGBCBBBCDCBEBFCBBCCBHBCBBCDGFBKCgKBbRBBBDBDDSBbBbJBCDDBBBBBBBB",
       "BBBBBBBBBBBBBBBFBBCBCBcAbWBBBBBBBBBBBBBBBBBBBBBBBBBBBBBBBBBBJBBBBBBBBBBBBBBBBBBBBBBBBBBB",
       "BBBBBBBBBBBBBBBBBBBBBBBBBBCBBBBBBBBBBBBCBBBBBBBBBBBBBBBBBBBBBBBBBBBBBBBBBBBBBBBBBBBBBBBB",
       "BBBBBBBBBBBBBBBBBBBBBBBBBBBBBBBBBBBBBBBBBBBBBBBBbXbNehCbRCDbdGGdfUJBBjEBDBQBeKBBBBBBBBBB",
       "BBBBBBBBBBBBBBBBBBBBBBBBBBBBBBBBBBBBBBBBBBBBBBBBBBBBBBBBBBBBBBBBBBBBBBBBBBBBBBBBBBBBBBBB",
       "BBBBBBBBBBBBBBBBBBBBBBBBBBBBBBBBBBBBBBBBBBBBBBBBBBHFBBBBBBBBBBBBBBBBBBBBBBBBBBBBBBBBBBBB",
       "BBBBBBBBBBBBBBBBBBBBBBBBBBBBBBBBBBBBBBBBBBBBBBBBBBBBBBBBBBJIGKIIIIGKIIIIOCcBBCEBBBDDBCEB",
       "DECCIIKDBCEBmZBbHQEBbgLbActQbWBBDCBBBBBBGBCBKBBBBBBBBBBBBBBBBBBBBBBBBBBBBBBBBBBBBBBBBBBB",
       "BBBBBBBBBBBBBBBBBBBBBBBBBBBBBBBBBBBBBBBBBBBBBBBBBBBBBBBBIBBBEBMbMBBFBbtwDBBBBBBBBBBBBBBB",
       "BBBBBBBBBBBBBBBBBBBBBBBBBBBBBBTBBBBBBBBBBBBBBBBBBBBBBBBBBBfFBBBBBBBBBBBBBDBBBBBBBBBBBBBB",
       "BBBBBBBBBBBBBBBBBBBBBBBBBBBBBBBBBBBBBBBBBBBBBBBKBBBCBBBBBBBBBEBEBBCCBBBBBBBBBBBBBBBBBBBL",
       "BBBBBBBBBBBBBBBEBBBCBDBFBBBBBbABbhCBbCdCbeaIHMFboZbAbvHbOfGbKfZLBPBHBCcrBbZeVWegObGbgjWb",
       "GbulMbI"]⟩,
    ⟨["dash"],
      ["bTBcaUBbZBfkJBbnPBdbDGcJBbNBPBpABeoIBCBbFCEBbCBrEBTBeHBczwACbLBKBgNBflOBmGB"]⟩,
    ⟨["di", "defaultignorablecodepoint"],
      ["gRBzXBbbOBegWCckHCdHFdaPFbAFbXQgkYBczmPQjFBgEBdBJctlNEhwXIbtkzLgbO"]⟩,
    ⟨["dep", "deprecated"],
      ["mRBbyVBdkTBBBdcJCdiJGbaVCbzryKB"]⟩,
    ⟨["dia", "diacritic"],
      ["dQBBBcTBGBEBCCtJgDBIFGRCEBJCjTFiBBcDbTBBBCBCBBfBIECfECECDDcPbBdNLcGLbICeWIbPKQbCcJBQBDEb",
       "CBcWBQBeGBQBeGBQBbVDcIBQBHBePBeGBQBeGBQBeFCQBeUBeHBMGBBeDBNFcXCbBBBBBBECcODBCcKBeIBBCbOC",
       "EFZHBBKCbbDDbkMCbEBfSLJBnJDlGBUICBbWPCLeABPBbMJcCCcGBLCcOCcMGdEZEBGBCDbYcLbWbKFMbLLrDBBD",
       "LDNDNDNCexKDmFBtMGeBEdRBbsmKBMCBBbCCdECObIdYDeFCMBbLBfVBbBScFEbKBdRBMBbKBfTDcNEbZBdWFJDe",
       "YCbdzSBbdPQkKBBBbVBbTCcPBbdKBbtNGBbQBJyNDEBgJCvZGbMBbAFpJDcSLbXEhKBbPBcUCeQCcKBcYBJDeACg",
       "WCdCCQBYHDFdLDBCNCdRBDBeTCjRCeWBeOCeLBkJCjYCEBgABdFBSBdDBqFBjYBBCdDBqJCXBhyAPqzPBdsAFcHH",
       "vSCvARdCCygCEBHBCltHbUCXuYDDGIICHbEEfmWcKhMHoLBcJEbdMCbcIHeFDBD"]⟩,
    ⟨["emoji"],
      ["bJBGBFKeHBEBlyRBMBiIBWBdMGPCoDCMBgKBZLEDhRBiXCKBJBcGEBFJBCBCCCBEBCBBCCBDBDCIDFBBBFMLCCBB",
       "CBBSBCCSGBBBCDCFBCCECLCFCCBFCBBBCUCFGBECBEBCBCGBBCBBBBBGBDBGBKCPBCBEBBBEDBBLCbWDJBOBOBoI",
       "CrVDTCbZBEBbvUBMBxDBBBgmrQBhUBgECMCOBCKcXbABCXBUBCJVCgSbICeICCBDCdFCDBkDBcLLGBYHCCIMBCEC",
       "BECNCCBICJBFDMDIDCBBBEBGBDBGdIbWcSFICDEKDBBCDBCKiTMEBkXbVBKBhDeINDKFcEHPCLGJ"]⟩,
    ⟨["ecomp", "emojicomponent"],
      ["bJBGBFKmbJBiFBdftRBdoiWbAtNFceAEbsvuQdS"]⟩,
    ⟨["emod", "emojimodifier"],
      ["hhiXF"]⟩,
    ⟨["ebase", "emojimodifierbase"],
      ["olHBiLBQEgsjVBcIDCBCDeNCCLVTDBEDBDHBBBYBhTCEBVBECgSDDFdFBQDJBLBwDBCBIIGBJKCDcEBcJCBCBBRD",
       "BNiVDbQJ"]⟩,
    ⟨["epres", "emojipresentation"],
      ["nhQChXEDBCBuBCVCbYMbRBTBNBICRCFCIBFBVBHCBBEBCBHBECbCBbJBBBEDBBcJDYBOBbhBCbZBEBgplEBhUBhI",
       "BCKcXbABBYBUBCFBDVCgSbHMJBcSBWMbREFMRDBDcTBBBhFCcLNEBYSBbACNBdIdHbWcSGBDDCDEELCHJiTMEBkX",
       "bVBKBhDeINDKFcEHPCLGJ"]⟩,
    ⟨["extpict", "extendedpictographic"],
      ["gNBEBlyRBMBiIBWBdMGPCoDCMBdRBcSBZLEDhRBiXCKBJBcGEBGBMBeKKeOCLBBBBGBDBGBKCPBCBEBBBEDBBLFb",
       "TDJBOBOBoICrVDTCbZBEBbvUBMBxDBBBgmrMjWNDbFBcIGMCOBCKScFbBPKBUBCJBEJqSFmGIkGbWeYeMMdHbRME",
       "cEIKGbOIbEdEMbVBKBqZjWbnI"]⟩,
    ⟨["ext", "extender"],
      ["hBBuQCbhUBqZByGBfHBdLBbcYBeXBdnFBcEBxNBpIBcQBhkJBbRFdZCdPDbqbUBcgSBblABWBfHBeEBVCbfzVBdb",
       "KCcfBBbBBEBbvBBlHBeMCtEDbvJBbeoFCbtKCBBbqyACbuFBbgUD"]⟩,
    ⟨["grbase", "graphemebase"],
      ["bGdRbHNBwWeIICGEHBBBUBiQHgKBbMCbYCDbUBBBCBCBJbBEGRKLBBbUVQBdXIBGCCBEbGCBBbEbDdLLBObRJHDY",
       "EBJBDBHPBZFBBLFbFRbQcFcDBBBEIEBDHKCbDBCBICCCWBHBBDEDBBCGCCCBBNCBDEYFBBGECCWBHBCBCBCEDYEB",
       "BHKCDBBMBBJBDBWBHBCBFDEIBBCDBPCEMHBICBICCCWBHBCBFDBCBGCCCPCBDESLBBGDDBEDCBBBCDCDDDMFBBCD",
       "DBDDBVVGDBIBDBXBQDBDETDCBCCEKHKBLBDBXBKBFDCCBBCYCBCEKBDOLBDBbPCBBCFDBDBCEDBKEbACCBSDYBJB",
       "BCHJCGHHKCDMbWBCLIINbLCBBBFBYBBBKBCJBCFBBJKCEbGYCbBBBBBBOBbKSBFBCFbXIBGBNbLbTEBGBCCCZCED",
       "QENBCCGBPBbOBBFBCoNBECHBBBECbPBECbHBECHBBBECPBcFBECcPFbDDbAGdICGCzTDdLHSNTDCJSONBDPcACBH",
       "IBCLJDKGKGLFKGdLHFCbIBBFcSKbFEECDECBGHBDbQCFLbSEbAGLDcFCCDcEBBJBBCIGNKGKGOdIbWKEDIBbDJMC",
       "bGECGcEBBCDBBNbWICFPDcKFbRCLLBNBHEBGBDCBFhKcMkSCGCbMCGCIBBBBBBBbFCcBBPBOCGBTCDBJBLFYHbXQ",
       "CCbBBNDbHcLfKEzQWLVcrSCbGBnGDCFbTBBFBCcEHCPXJHBHBHBHBHBHBHBHbHdQbIbABdLMiGbAcGGQBdIEdXFb",
       "RBdQBdIJbWBbriRDcDJnKUbVEBKbGCdCCGIhYCCBBBIVQBDBEBZCFEKGcEIcQKMYNBbMIZLBMbEGbWBCECCCBNBL",
       "EHBZBbPGCCCLDBIBBCKCbGBbZBBDCCFCBBBYRCILGCGCGJHBHBcIEeNBCBEDKGqnSMXEbXmnCoCCeCbMHMFFBBYB",
       "FBBBCBCBeVQrDCcCHBbGQQKWbJBTBEEFBfFEgBCbFDGCGCGCDDHBHNCCMBbABTBCBPCObIeTFDEbTDdKBNDBbVbT",
       "fBbDDbXQbBEbKJbEFbMKbEBbLEObQgCCKGbKEbKEbOIcALMBPBHBCBLBPBHBCDcAMlZJWKIYGBbQBJcRGCBBbSBC",
       "DBCXBcUIJbWTBCFbHDbBFBcMcEEUCbVPEBDBbDKJHJHcMbGbLGMJcCDbDCbBFbAHEMHdCcVcDbZNbZHbQMKGbMIY",
       "ICiAbFBbQDBCCQDcHbOIWLJWSEEbMbCUXJBBcCPHEbEBCCBMbXECCCBEOZHKJbKFBJSIbJBDLcAJBBIECBQBULSB",
       "bCDCEGBCcLHBBBEBPBLGbVBDNKICBICCCWBHBCBFDBBBBECCCCDBMHbCKBBCBBbMBBBCPBBCDBBDBCbNcEICDBBV",
       "BBBDbEbWBCGBBCBBCBCEIKgKbVBCGECBCbBbKbZICBBCELKGNTbRBBBCICGKGUbCbBDBBCEBJXhDbVJBCBdWdFMI",
       "CBCIBCBYBFBCGEBDJKcSICbQIEBEbBBKbOGCEIJBGCDbUNBCJNcVHKhAbIOKGJBbMOBBGKbDDbGZBHBCBcXHBCBb",
       "MVBJKGGBCBbLECBBBBHKlYTCEJPBbKICDXdIBPbYNbjNdYeHBFLhOdxKdVNbpGRGZfxRFwLkdDbEMDDKcoSvXHbF",
       "BKEdDBKGbEHBKbWHPKKBHBVFTqQcGhQdNdXcXFcELNcMEbCjcAIbvQbPKnfREBHBCBlFPBbDDCBOEIpGdkUeDFND",
       "JHKCBCBfvKjQGqUgAeMcIjMKbNCcIFDWCHbEEcJVcODBeSUMUMdJJZfFdHBcTBCCBCCCEBMBBBHBcNBECIBHBbCB",
       "EBFBBDHBnCClGCvQcDEbYIBOBHbrWbFGGkBcKfQbTKHCKECmIbESbSEKFBrWbCEKiGbECLEBsMHBEBCBPBhPCJbW",
       "cQHBEKECbeFcQcYcJhMEBbBBCBBCBBKBEBBBBGBEBBBBBBDBCBBCBBBBBBBBBBCBBCEBHBEBEBBBKBRFDBFBRcAC",
       "kKbSEdWMPCPBPBbLKgScEbDNbSEJHCOGfYblWERDNDePEdRGMEBPMEcEIKGbOIbECMECcKnCMOCNDKFcEHPCLGJH",
       "fRBdYbnQclfCbGgdUGiOCinQOlbLPxYdqWuWcfYhhZFgfG"]⟩,
    ⟨["grext", "graphemeextend"],
      ["bdOeIkPHkDbTBBBCBCBBcULbWVQBdXHCGCCBEbJBbEbBdNLcGJJBYEBJBDBFbRDcHJbQYBbGcDBBBEIEBDHKCbDB",
       "cGBBBCEIBJBKCbABCCcFBECECCDDBbECDBLCcFBEFBCEBUCWGBBcGBBCBEIBHDKCbEBcHBBBMBJBbOBDBcDBBDFD",
       "BEHCLCbDBcGBCCBBDDBEHCLCbCCcFCBBCEIBJBKCbDBcUBEBCDBBIBdDBCHMIdUBCJLHcVCbBBBBBBcDOBFBCFLB",
       "bKJBdYEBGBCCCZCEDQENBCCGBPBbbBDbkKEbCDbDCbECcMCBHIBCLJBbTDBBeNCbIBeODECJBGDiLCCBcGBBHBBB",
       "BCIGKCBbWbFbXEbWKEDbMJMCbGECGcEBBCDBBFcEICCfWDBNBHEBGBDChQcMuEBhNbHeoCDfLBdSbGvIGeBCbsqE",
       "EBKbGCdCCkMBDBEBZCFBfVCbASNBbMIZLBBbSDbWBCECCCBbKBcPGCCCCMBIBbVBbZBBDCCFCBBbQCIBjEBCBEBb",
       "dzSBbcJQQQoCCxHBiSBfTFcmGDBCFEbODEBgJCwBEcNFmFCdBEcSLbXEeTBcCPbPBCCKDbXECCHBcJDbKFBIcKBM",
       "CcAJBBIECBdRDCEGBCBgBBDIVCcFCBBBBMBJBOHDFcPBCGBBCBBDEDBBOCdHICDBBXBdDBCGBBCBBCBCjBBCEGCB",
       "CbBCdHICBBCeCBBBCIdXBBBCEBFjZJBCjLBKEEBfOECCEBbGKbOGCEIBJGCDbUNBCpQHBGBBdEWCHBCBCeSGDBBC",
       "BHBBcUCDBBBnJCLCcAFFDXBhxTBGPqyYMDDdsAFcHHboIBcLEdDBLCbdaXCgyZbUCXuWFDGIICHbEEfSDcyDcDEb",
       "YIBOBWFBPcaIHBRCHBCBFdWBgEHoLBcJEtOEjUCbcIHeFHbtcaFdSeYjG"]⟩,
    ⟨["grlink", "graphemelink"],
      ["dnPBeXBeXBeXBeXBeXBeXBeXBeFCQBeUBeHBeXBhTBgYCcpLCbEBgBBzDBiTBdXCcSCgqTBbukKBbLBfVBfMBeEB",
       "lXBjMBbjsRBchIBbPBOBcFBeRCfJBeMBgYBdUBeYDeJBeXBjSBeXBeOBeMBkJBjZCgFBdFBSBdDBqFBkACdDBqJC",
       "yzCB"]⟩,
    ⟨["hex", "hexdigit"],
      ["bWKHGbAGdslLKHGbAG"]⟩,
    ⟨["hyphen"],
      ["bTBeXBbvWBgzZBdbDCfiBBbcLBczuLBgNBdJB"]⟩,
    ⟨["idcompatmathcontinue"],
      ["gWCFBmaGBDLBPoHBEBWBgjjEBZBbFBZBbFBZBbFBZBbFBZB"]⟩,
    ⟨["idcompatmathstart"],
      ["mwWBEBWBgjjEBZBbFBZBbFBZBbFBZBbFBZB"]⟩,
    ⟨["idc", "idcontinue"],
      ["bWKHbAEBBbAbVBKBBBCBFXBbFBrQEMOFHBBBReNBCCEBBGFBBBUBdFBfJBFCgKBbMCBGbPIbTBBBCBCBBIbBEEbD",
       "LFcWEdYBICKBTCBQcHCdXOcCEBCBCbUSbCELFYBGIcXBeZCKBTBICCCWBHBBDECJCCCEIBECBFCMKBBBCDBGECCW",
       "BHBCBCBCCBBFECCDDBHEBBHQLDBJBDBWBHBCBFCKBDBDCBPECKJHBDBICCCWBHBCBFCJCCCDHDECBFCKBBQCBGDD",
       "BEDCBBBCDCDDDMEFDDBECBGBOKQNBDBXBQCJBDBEHCBDCBCECKQEBIBDBXBKBFCJBDBEHCGCBECKBDMNBDBbZBDB",
       "FFEHFCKKGBDBSDYBJBBCHDBEGBBBIGKCCNcGFPBKbNCBBBFBYBBBXCFBBBHBKCEbGBXCGKLBBBBBEKBbKEUBSBbK",
       "JBcFcWGdACbMBBFBCbRBmVBECHBBBECbPBECbHBECHBBBECPBcFBECcPCDJJOQQdICGDxWCRBbAFcXDLHWJWLUMN",
       "BDBCMdGDBECCKbHDBLGdLHbRFcSKbFBMEMKbOCFLbSEbAGLbLbCEcLBbDCLGKNBIOBQbXcZDKRJMeMMcEIKDbXCL",
       "FbRCDQDBbNFuOCGCbMCGCIBBBBBBBbFCcBBHBBDDBHDECGENFDBHPCbXCTBbCBNBQNbZNEBDMRBEBCKBBCGGBBBB",
       "BBQCEFFEBRbPdzBiVGJMbMBBFBCcEHBPYJHBHBHBHBHBHBHBHBbGtXDZPBFCFEdICHBdRFbRBdQRbGbWQtSjtOcM",
       "bguFcPbUCkJDbCUbWEKBeLbLJCdZCcPCCBBBIVcCEBTcAMcSKKGYDBBbXCbKMbDDcNOLGbFBcDJOCKGXDcVYDCQC",
       "FKGCGCGJHBHBbRBOGeTBCCKGqnSMXEbXmnCoCCeCbMHMFFMBNBFBBBCBCBeEbHnZScMCcCbOMEQQQDCYDbGFBfFT",
       "KHbAEBBbAKdMDGCGCGCDbJMBbABTBCBPCObIeTcRcBfGBfAbDDbXPBbFbGNbEFbRFbECbKEIBFbQgCCKGbKEbKEb",
       "OIcAMLBPBHBCBLBPBHBCDcAMlZJWKIYGBbQBJcRGCBBbSBCDBCXKXJbFcNTBCKWKbAcScEGCcMEBCFIBDBbDCDEB",
       "bGbDDbDbJIBbEZcCKWKTNSeGcVcDbZNbZNbOIKGbMDFBXjQbQBCDCQDcDbHKBIbHbFWbQVbBXJcTbFQJcIHBNZHK",
       "GcBBKEEIbKCBJcREEBNBBbJSBbLGEcKHBBBEBPBKHcHFKGEBICCCWBHBCBFBKCCCDCBGBFHCHDFLKBBCBBbMBKBB",
       "CBBEBINCbDcXFKEEbEcSBBIKgKcCCJXGbIcNDBLKbMcFHKGUbCbBCPEKGHhDcHdXcWVICBCIBCBbEBCCJMKcSICb",
       "UCIBCbBcLIBIcWDBScVhRbHPKGJBbTBJPKYbECWBOcVHBCBbSDBBCBJIKGGBCBbLBCBGHKlYXJRBbPDFNLdHBdBb",
       "jMdYeHRhOdxKdTPbpGQWKfxRFwLkdDcGcoSvXHbFBKGdBBKGbECFLcDJEMKJVFTqQbTDKhQcMeYcXEcFHRcMCBCL",
       "COjcAIbvQbPKnfREBHBCBlFPBbDDCBOEIpGdkUeDFNDJHKDCgeRKtYbUCXuWFDGIICHbEEfSDrBdHBcTBCCBCCCE",
       "BMBBBHBcNBECIBHBbCBEBFBBDHBnCCZBZBbFBZBbFBZBbFBZBbFBZBICbYtScDEbYIBOBWFBPbqMbFGGiFHBRCHB",
       "CBFFcKbHBeIbTDOCKEBmJbFRcGsCbQiGbRsRHBEBCBPBhPLHbPcYEKbtUEBbBBCBBCBBKBEBBBBGBEBBBBBBDBCB",
       "BCBBBBBBBBBBCBBCEBHBEBEBBBKBRFDBFBRfaAKbnQclfCbGgdUGiOCinQOlbLPxYdqWuWcfYhhZFgfGbonhGjG"]⟩,
    ⟨["ids", "idstart"],
      ["cNbAGbAbVBKBEBFXBbFBrQEMOFHBBBeZFBCCEBBGBBDBBBUBdFBfJIgKBbMCBGbPcTbBEEbTbRbJCBdVBBPCHCKD",
       "CBQBBbEbDdLLBYbHJCEBFWEBJBDBXZHLFYBGRbQcGcCDBSBHKPQEICCCWBHBBDEDBQBNCBDOCKBIGECCWBHBCBCB",
       "CbFEBBTDQJBDBWBHBCBFDBSBPCXBLICCCWBHBCBFDBbECBDPBRBBGDDBEDCBBBCDCDDDMWBcAIBDBXBQDBbADCBC",
       "CbEBEIBDBXBKBFDBbFCBCPCRJBDBbPCBQBFDIDYGFSDYBJBBCHcGbWBCMHcGCBBBFBYBBBKBCJBCFBBVEbGBcLIB",
       "bKbBFeLbRUBQGEEDBDCHDENMBRbMBBFBCbRBmVBECHBBBECbPBECbHBECHBBBECPBcFBECcPbLQQdICGDxWCRBbA",
       "FcXDLHSNTOSONBDPcAbJBEBcPdLHbPBBFcSKbFbXbECFLbSEbAcCXJcBdEBdPbVRIcCbENCKbSbAbKbPDKbKCLFb",
       "RCDbPEBGBCDBFhKcMkSCGCbMCGCIBBBBBBBbFCcBBHBBDDBHDECGENFDBHeMBNBQNdXBEBCKBBCGGBBBBBBQCEFF",
       "EBRbPdzBiVGEDCMbMBBFBCcEHBQXJHBHBHBHBHBHBHBHvEDZJHFCFEdIEFBdMBEFbRBdQRbGbWQtSjtOcMbguFcP",
       "bUCkJDQKCUbVQbFCdCbNJCdZCcPCCBBBIVQBDBEBXbDcAObYcKGDBBCLbCKXZbDHbVbCBQFBKKFBbPXDBIUXDBDb",
       "YBBDCCFCBBBYDCLHDMGCGCGJHBHBbRBOGeLbDqnSMXEbXmnCoCCeCbMHMFFBBKBNBFBBBCBCBeEbHnZScMCcCbOM",
       "eMFBfFbKbAGbALdLDGCGCGCDbJMBbABTBCBPCObIeTcRcBkHbDDbXbVbGNbEFbMKbECbKEIBFbQgCSbKEbKEbOIc",
       "AMLBPBHBCBLBPBHBCDcAMlZJWKIYGBbQBJcRGCBBbSBCDBCXKXJbFcNTBCKWKbAcScEGCcMBPEBDBbDbQbDDbDbJ",
       "IBbCbBcCKWKTNSeGcVcDbZNbZNbKbMbCJXjQbQGCQDcHbDKBIWbQSbUVbBXMcBcFCCBNbTbGZbAbKbDBCBIbJDBM",
       "bWOEVBBBbJSBZTCcLHBBBEBPBKHbVbMICCCWBHBCBFDBSBMFbEKBBCBBbMBBZBBBbScBSEUDbEbWUCBBhCbVbPEb",
       "KbWUBcHbRNBcTbBbLHhDbSeMcMbFICBCIBCBYPBBBdQICbNQBBBbCBKbOHBVBLbUTBScVhRbHbFJBbLRBbXbEeIH",
       "BCBbMVBZGBCBbGOBmPTPBBNBbIeUBdBbjMdYeHRhOdxKdTPbpGRGZfxRFwLkdDbEcpUvXHbFRdBRbESbWQEbFVFT",
       "qQbTiDcMeYcXFBcONcMCBBbCjcAIbvQbPKnfREBHBCBlFPBbDDCBOEIpGdkUeDFNDJHKiwKdHBcTBCCBCCCEBMBB",
       "BHBcNBECIBHBbCBEBFBBDHBnCCZBZBbFBZBbFBZBbFBZBbFBZBIcsYbFGGkBcKfQbTKHQBmJbESbSsQbCiUbECBt",
       "BHBEBCBPBhPcHcQHBbuIEBbBBCBBCBBKBEBBBBGBEBBBBBBDBCBBCBBBBBBBBBBCBBCEBHBEBEBBBKBRFDBFBRgo",
       "AclfCbGgdUGiOCinQOlbLPxYdqWuWcfYhhZFgfG"]⟩,
    ⟨["ideo", "ideographic"],
      ["seWCZJODblDjtOcMbfbKbhsIoCCeCbsiKBbBjcAIbvQbPKnuLpGbdeIclfCbGgdUGiOCinQOlbLPxYdqWuWcfYhh",
       "ZFgfG"]⟩,
    ⟨["idsb", "idsbinaryoperator"],
      ["seACCKtDB"]⟩,
    ⟨["idst", "idstrinaryoperator"],
      ["seCC"]⟩,
    ⟨["idsu", "idsunaryoperator"],
      ["seOC"]⟩,
    ⟨["joinc", "joincontrol"],
      ["mdOC"]⟩,
    ⟨["loe", "logicalorderexception"],
      ["fkIFeTFedSDCBccxMCCBBC"]⟩,
    ⟨["lower", "lowercase"],
      ["dTbAbVBKBEBbKYBIBBBBBBBBBBBBBBBBBBBBBBBBBBBBBBBBBBBBBBBBBBBBBBBBBBBBBBBCBBBBBBBBBBBBBBBC",
       "BBBBBBBBBBBBBBBBBBBBBBBBBBBBBBBBBBBBBBBBBBBBBBCBBBBDCBBBCBDCEBCBDDCBCBBBBBCBBCBBCBDBBBCC",
       "CDGBCBCBBBBBBBBBBBBBBBBCBBBBBBBBBBBBBBBBBCCBBBDBBBBBBBBBBBBBBBBBBBBBBBBBBBBBBBBBBBBBBBBB",
       "BBBBBBBBBBBBBBBBBHCBCCBBEBBBBBBBBcRBbKHCbEFdSBbRBBBDBCESBbBbJBCDDBBBBBBBBBBBBBBBBBBBBBBB",
       "FBBCBCCbZbWBBBBBBBBBBBBBBBBBBBBBBBBBBBBBBBBBBJBBBBBBBBBBBBBBBBBBBBBBBBBBBBBBBBBBBBBBBBBB",
       "BBBBBBBBBBBCBBBBBBBBBBBBCBBBBBBBBBBBBBBBBBBBBBBBBBBBBBBBBBBBBBBBBBBBBBBBBBBBBBBBBBBBBBBB",
       "BBBBBBBBBBBBBBBBBBBBBBBBBBBBBBBBBbWbPehBbRBEbdGGdfUJBBeNhKcNBBBBBBBBBBBBBBBBBBBBBBBBBBBB",
       "BBBBBBBBBBBBBBBBBBBBBBBBBBBBBBBBBBBBBBBBBBBBBBBBBBBBBBBBBBBBBBBBBBBBBBBBBBBBBBBBBBBBBBBB",
       "BBBBBBBBBBBBBBBBBBBBBBBBBBBBBBBBJBBBBBBBBBBBBBBBBBBBBBBBBBBBBBBBBBBBBBBBBBBBBBBBBBBBBBBB",
       "BBBBBBBBBBBBBBBBBBBBBBBBBBBBBBBBBBBBBBBBBBJIGKIIIIGKIIIIOCIIIIIIFBCGBDDBCIECCIIKDBCeRBNB",
       "QNeFBDCDBbBBEBEBCCIEEBbHQEBbgLbActQbWBBDCBBBBBBEBBCBIDBBBBBBBBBBBBBBBBBBBBBBBBBBBBBBBBBB",
       "BBBBBBBBBBBBBBBBBBBBBBBBBBBBBBBBBBBBBBBBBBBBBBBBBBBBBBBBBBBBBBBBCHBBBEBMbMBBFBbtwDBBBBBB",
       "BBBBBBBBBBBBBBBBBBBBBBBBBBBBBBBBBBBBBBBTBBBBBBBBBBBBBBBBBBBBBBBBBBDfDBBBBBBBBBBBBDBBBBBB",
       "BBBBBBBBBBBBBBBBBBBBBBBBBBBBBBBBBBBBBBBBBBBBBBBBBBBBBBBKBBBBCBBBBBBBBBEBBBCBBDBBBBBBBBBB",
       "BBBBBBBBBBFBFBBBBBBBBBBBBBBBEBBBCBDBBBBBBBBBBBWDBBBDbfPbRBOGdCbeaIHMFboZbAbvHbOfGbKfZLBP",
       "BHBCrJBCDBbQBJbxLbZeVWegObGbgjWbGbmmKbAbAHBSbAbAbAEBBBHBLbAbAbAbAbAbAbAbAbAbAbAbAbAbAbAb",
       "AbAbCbCZBGbAZBGbAZBGbAZBGbAZBGBBcsYKBUGGkBcKdhSbI"]⟩,
    ⟨["math"],
      ["bRBQDbFBbDBBBbTBEBbLBbFBbcADCBbACCDuHDjwNBbBDLBDBNBOEVFLFcNNEBDCEFSBEBCKBBCGGBDCCCBDBGDO",
       "BBcQYBGBCECEbGBBGCOkIIEUCdMBbEbBBBYBLHrDCMKEGECCCDFOBBBCGLIFCcFBBBbDEJDmYcMjWtSbWVCGdasQ",
       "BbfRGBBgGBQDbDBBBbDBBBfBBGEfeFCcxdWdHBcTBCCBCCCEBMBBBHBcNBECIBHBbCBEBFBBDHBnCClGCbYiiQEB",
       "bBBCBBCBBKBEBBBBGBEBBBBBBDBCBBCBBBBBBBBBBCBBCEBHBEBEBBBKBRFDBFBRcAC"]⟩,
    ⟨["mcm", "modifiercombiningmark"],
      ["ckICCBfBBGBDCsNCBDDBbFB"]⟩,
    ⟨["nchar", "noncharactercodepoint"],
      ["dsdCbGuGCdsyOCdsyOCdsyOCdsyOCdsyOCdsyOCdsyOCdsyOCdsyOCdsyOCdsyOCdsyOCdsyOCdsyOCdsyOCdsyO"]⟩,
    ⟨["oalpha", "otheralphabetic"],
      ["bgFBbDNwEOBBBCBCBBcULbWNBHQBdXHEECCEBbJBbEQdYLdXCDJBDBEeCBcIMDHGUcCCCPBCFDKCbDDcGHCCCCKB",
       "KCbDDcGFECCCEBbECDBLDcGIBDBCVCWDEDcGHCCCCJCKCbEBcHFDDBDKBbOFcFHBDBDICLCbDDcGHBDBDICLCPBM",
       "EcGHBDBDKBKCbDDcXGBBBISCcJBCHSBdVBCGBCQBgHTJLBbKeGMBBCEXEEDBDCHDENMBBKEclOCbECbECbECcOTh",
       "GCbIBeOMEJiOFcFKCUcWCLDbXFbWPcIDbEJCCcFLbYTpWbIcoNcAdkGbGbtqAIbICnQBIBXFdKCbYQBBcFBbMFbC",
       "MbTEbWMbLBcPOMBICbTDbYBBDCCFBbSFFBjDIbdzVBdeDFcmGDBCFEbeIEcNBmJCdBBjZDcBObTCLDbTJJBcJDbK",
       "MSCcFDbWNOCdOJCBGBCBgBKXEcGHCCCCKBKCdGJBBCBBEBCdZNBDeCSjDHCHbDCdEPBBeCLdZOjXNjNGBCCCDBBB",
       "fMHCGEBbCKbQFBESLbUOpRIBHdFWBOeSGDBBCBDBBDBcOFBCBEnKEJCBBbWHDDyyNRfjCBBcDHEdPCbdaYBnkJHB",
       "RCHBCBFdWBdhVBczWbAGbAGbA"]⟩,
    ⟨["odi", "otherdefaultignorablecodepoint"],
      ["bgPBfiLCckHCdhNBglIBdacPBdBJbwmiHBBbEdSeYjGfiM"]⟩,
    ⟨["ogrext", "othergraphemeextend"],
      ["drYBYBnUBYBdYBYBiYBBBECBCJCdZBYBePBPBdmRBbEBbnKBFBBBFCdXBcTCboIBgcVCbtwTBeEBbgnLCgwMBeMB",
       "kEBOBJBdSBJBCBBDFBiQBMBjHBkCByJBMBchFBbeoKCbkxNCGGbtlaZdS"]⟩,
    ⟨["oidc", "otheridcontinue"],
      ["hBBbbRBgaJJclCBciZCgkRBdaeJB"]⟩,
    ⟨["oids", "otheridstart"],
      ["jhLCdgJBVBfvWC"]⟩,
    ⟨["olower", "otherlowercase"],
      ["gOBPBtHJHCbEFdSBcABfcZBepZcLNBbIbLbaNBNBQNiDQbgQbAcwOCbugKCiCBeZDDCbhIEJBbiwSBCDBbQBJddz",
       "HcK"]⟩,
    ⟨["omath", "othermath"],
      ["dQBbhXDCBbACCCkqYBbBDLBbGEYCOCcNNEBDCEFSBEBCKBBDFGBDCCCBDBGDEFFcXFCEBCBCBBBFCCECESCCBBBH",
       "BBGClEEgMCBBYBRBrDCMJFFFCCCDFOBBBCGYCcFBBBbDEJCnECbFKpNWcLEbGCdclFBBBEBiDBBBdcoVdHBcTBCC",
       "BCCCEBMBBBHBcNBECIBHBbCBEBFBBDHBnCCZBZBbFBZBbFBZBbFBZBbFBZBICbYiiQEBbBBCBBCBBKBEBBBBGBEB",
       "BBBBBDBCBBCBBBBBBBBBBCBBCEBHBEBEBBBKBRFDBFBR"]⟩,
    ⟨["oupper", "otheruppercase"],
      ["mqQQbgGbAgsiYbAGbAGbA"]⟩,
    ⟨["patsyn", "patternsyntax"],
      ["bHPKHbAEBBbAEbIHBBBCBBBCEBEBDBXBbFBluEYIPCTBKlTbbSgEyGbEbrOtSeYoVDEZPBczqZCkBC"]⟩,
    ⟨["patws", "patternwhitespace"],
      ["JFSBdWBlyMCYC"]⟩,
    ⟨["pcm", "prependedconcatenationmark"],
      ["chCGiHBbXBoUCdCBdvxYBPB"]⟩,
    ⟨["qmark", "quotationmark"],
      ["bIBEBfBBPBlwUIZCfiDBrPENDdabPEhHBEBdMC"]⟩,
    ⟨["radical"],
      ["rpWbABdLMiG"]⟩,
    ⟨["ri", "regionalindicator"],
      ["hgoKbA"]⟩,
    ⟨["sterm", "sentenceterminal"],
      ["bHBMBQBcaBBfRDgYBbRDjMBcJBBBDClHCcpWCbeKBECbdTBhQCgBCbTBFBmCCnQEgGCKCCCbDDhFCcNCbjWBXCJD",
       "euXDlUBNBWCqNBbshWBkKCiTBDBoSCdICdRBfWCfRDfOCjPBbfcWBCCcHBDCgNBMBQBcNBedWCbxDFbSEhHCeNEe",
       "XDeZCGBQCdKCBCeEBlMCeNCoJCFPeBCjPDtXBBBjRCdJCqECbaQCcWCbcmBCfDBcNCLBvHClKBbdoGBliMB"]⟩,
    ⟨["sd", "softdotted"],
      ["eBChOBkVBbEBcABUBmIBdUBBBjmNBbZBNBDBfCBgBBqFBiGCegGBgelHCbYCbYCbYCbYCbYCbYCbYCbYCbYCbYCb",
       "YCbYCdfYBlTCbAB"]⟩,
    ⟨["term", "terminalpunctuation"],
      ["bHBKBBBLCDBbfYBIBtTBcFBcUBOBBDgYBbRLBBjBCcCGBIbFBkBCbwUCgQBEGlZCbeJIbdTBeUDcTCgBDDBbNECC",
       "mCCnQEgGCKCBDbDDhFFcKCbjWBXCJDeuXDlUBNBEBKBBCDCqMCbshVCkJDiTFoSCdICdRBfVDfRDeXBQCjPBbfcW",
       "BCCcFDBEgNBKBBBLCDBcNBCBbpQBbWBbsOBhRBlYCfWGcQGdLEbkQFbSEhHHeIEeXDeZCGBQCdKFeEBlMCeNDMCn",
       "UEDPeBCjPDtXBBBjRCdJCECpYDbTByVCcWCbyXFbamZCfDBcNDKBvHClJCbdoGBliLE"]⟩,
    ⟨["uideo", "unifiedideograph"],
      ["tsAjtOcMbfbKbicSCBBBCKBBBBCCDdveCclfCbGgdUGiOCinQOlbLPxYgrQhhZFgfG"]⟩,
    ⟨["upper", "uppercase"],
      ["cNbAdXXBHbHBBBBBBBBBBBBBBBBBBBBBBBBBBBBBBBBBBBBBBBBBBBBBBBBBBBBBBBCBBBBBBBBBBBBBBBCBBBBB",
       "BBBBBBBBBBBBBBBBBBBBBBBBBBBBBBBBBBBBBBBBBCBBBBDCBBBCBDCEBCBDDCBCBBBBBCBBCBBCBDBBBCDBHBCB",
       "CBCBBBBBBBBBBBBBBBCBBBBBBBBBBBBBBBBBCBCBBDBBBBBBBBBBBBBBBBBBBBBBBBBBBBBBBBBBBBBBBBBBBBBB",
       "BBBBBBBBBBBBHCBCCBBEBBBBBBBBlDBBBDBIBGBBDBBBCBRBJbJBCDDBBBBBBBBBBBBBBBBBBBBBBBFBCBBCCbZb",
       "WBBBBBBBBBBBBBBBBBBBBBBBBBBBBBBBBBJBBBBBBBBBBBBBBBBBBBBBBBBBBBBBBBBBBBBBBBBBBBBBBBBBBBBB",
       "BCBBBBBBBBBBBBCBBBBBBBBBBBBBBBBBBBBBBBBBBBBBBBBBBBBBBBBBBBBBBBBBBBBBBBBBBBBBBBBBBBBBBBBB",
       "BBBBBBBBBBBBBBBBBBBBBBCbMehDbMBBFBbbUdIdgLBGbRCDmIBBBBBBBBBBBBBBBBBBBBBBBBBBBBBBBBBBBBBB",
       "BBBBBBBBBBBBBBBBBBBBBBBBBBBBBBBBBBBBBBBBBBBBBBBBBBBBBBBBBBBBBBBBBBBBBBBBBBBBBBBBBBBBBBBB",
       "BBBBBBBBBBBBBBBBBBBBBBBJBBBBBBBBBBBBBBBBBBBBBBBBBBBBBBBBBBBBBBBBBBBBBBBBBBBBBBBBBBBBBBBB",
       "BBBBBBBBBBBBBBBBBBBBBBBBBBBBBBBBBJIIGKIIIIGLBBBBBBBIIcUEMEMEMFLEkCBEBDDCDCBDFGBBBBBBECEK",
       "CFBbAQTBbfMbAcsUbWbWBBDCBBBBBBEBBCBIDBBBBBBBBBBBBBBBBBBBBBBBBBBBBBBBBBBBBBBBBBBBBBBBBBBB",
       "BBBBBBBBBBBBBBBBBBBBBBBBBBBBBBBBBBBBBBBBBBBBBBBIBBBEBbtyJBBBBBBBBBBBBBBBBBBBBBBBBBBBBBBB",
       "BBBBBBBBBBBBBBTBBBBBBBBBBBBBBBBBBBBBBBBBBBfFBBBBBBBBBBBBBDBBBBBBBBBBBBBBBBBBBBBBBBBBBBBB",
       "BBBBBBBBBBBBBBBBBBBBBBBBBBBBBBBKBBBBCBBBBBBBBEBBBCBBBDBBBBBBBBBBBBBBBBBBBBFBFBBBBBBBBBBB",
       "BBBBEBBBCDBFBBBBBBBYBbhaHbAbuZbOfGbKgALBPBHBCcqCbZgBWegObGbgjWbGbmmQbAbAbAbAbAbABBCCBCCC",
       "EBIbAbAbACBECIBHbBCBEBFBBDHbBbAbAbAbAbAbAbAbAbAbAbAbEZbHZbHZbHZbHZbHBgnLbIdbIbAGbAGbA"]⟩,
    ⟨["vs", "variationselector"],
      ["jcTDBBdjcAQbwnkYjG"]⟩,
    ⟨["wspace", "whitespace", "space"],
      ["JFSBdWBbABihJBdpNLbDCFBbVBfxWB"]⟩,
    ⟨["xidc", "xidcontinue"],
      ["bWKHbAEBBbAbVBKBBBCBFXBbFBrQEMOFHBBBReNBCDDBBGFBBBUBdFBfJBFCgKBbMCBGbPIbTBBBCBCBBIbBEEbD",
       "LFcWEdYBICKBTCBQcHCdXOcCEBCBCbUSbCELFYBGIcXBeZCKBTBICCCWBHBBDECJCCCEIBECBFCMKBBBCDBGECCW",
       "BHBCBCBCCBBFECCDDBHEBBHQLDBJBDBWBHBCBFCKBDBDCBPECKJHBDBICCCWBHBCBFCJCCCDHDECBFCKBBQCBGDD",
       "BEDCBBBCDCDDDMEFDDBECBGBOKQNBDBXBQCJBDBEHCBDCBCECKQEBIBDBXBKBFCJBDBEHCGCBECKBDMNBDBbZBDB",
       "FFEHFCKKGBDBSDYBJBBCHDBEGBBBIGKCCNcGFPBKbNCBBBFBYBBBXCFBBBHBKCEbGBXCGKLBBBBBEKBbKEUBSBbK",
       "JBcFcWGdACbMBBFBCbRBmVBECHBBBECbPBECbHBECHBBBECPBcFBECcPCDJJOQQdICGDxWCRBbAFcXDLHWJWLUMN",
       "BDBCMdGDBECCKbHDBLGdLHbRFcSKbFBMEMKbOCFLbSEbAGLbLbCEcLBbDCLGKNBIOBQbXcZDKRJMeMMcEIKDbXCL",
       "FbRCDQDBbNFuOCGCbMCGCIBBBBBBBbFCcBBHBBDDBHDECGENFDBHPCbXCTBbCBNBQNbZNEBDMRBEBCKBBCGGBBBB",
       "BBQCEFFEBRbPdzBiVGJMbMBBFBCcEHBPYJHBHBHBHBHBHBHBHBbGtXDZPBFCFEdICCCDBdRFbRBdQRbGbWQtSjtO",
       "cMbguFcPbUCkJDbCUbWEKBeLbLJCdZCcPCCBBBIVcCEBTcAMcSKKGYDBBbXCbKMbDDcNOLGbFBcDJOCKGXDcVYDC",
       "QCFKGCGCGJHBHBbRBOGeTBCCKGqnSMXEbXmnCoCCeCbMHMFFMBNBFBBBCBCBeEbHfJGiKScMCcCbOKGQQQDCYDbH",
       "BBBDBBBBBBBBeWTKHbAEBBbAKdMDGCGCGCDbJMBbABTBCBPCObIeTcRcBfGBfAbDDbXPBbFbGNbEFbRFbECbKEIB",
       "FbQgCCKGbKEbKEbOIcAMLBPBHBCBLBPBHBCDcAMlZJWKIYGBbQBJcRGCBBbSBCDBCXKXJbFcNTBCKWKbAcScEGCc",
       "MEBCFIBDBbDCDEBbGbDDbDbJIBbEZcCKWKTNSeGcVcDbZNbZNbOIKGbMDFBXjQbQBCDCQDcDbHKBIbHbFWbQVbBX",
       "JcTbFQJcIHBNZHKGcBBKEEIbKCBJcREEBNBBbJSBbLGEcKHBBBEBPBKHcHFKGEBICCCWBHBCBFBKCCCDCBGBFHCH",
       "DFLKBBCBBbMBKBBCBBEBINCbDcXFKEEbEcSBBIKgKcCCJXGbIcNDBLKbMcFHKGUbCbBCPEKGHhDcHdXcWVICBCIB",
       "CBbEBCCJMKcSICbUCIBCbBcLIBIcWDBScVhRbHPKGJBbTBJPKYbECWBOcVHBCBbSDBBCBJIKGGBCBbLBCBGHKlYX",
       "JRBbPDFNLdHBdBbjMdYeHRhOdxKdTPbpGQWKfxRFwLkdDcGcoSvXHbFBKGdBBKGbECFLcDJEMKJVFTqQbTDKhQcM",
       "eYcXEcFHRcMCBCLCOjcAIbvQbPKnfREBHBCBlFPBbDDCBOEIpGdkUeDFNDJHKDCgeRKtYbUCXuWFDGIICHbEEfSD",
       "rBdHBcTBCCBCCCEBMBBBHBcNBECIBHBbCBEBFBBDHBnCCZBZBbFBZBbFBZBbFBZBbFBZBICbYtScDEbYIBOBWFBP",
       "bqMbFGGiFHBRCHBCBFFcKbHBeIbTDOCKEBmJbFRcGsCbQiGbRsRHBEBCBPBhPLHbPcYEKbtUEBbBBCBBCBBKBEBB",
       "BBGBEBBBBBBDBCBBCBBBBBBBBBBCBBCEBHBEBEBBBKBRFDBFBRfaAKbnQclfCbGgdUGiOCinQOlbLPxYdqWuWcfY",
       "hhZFgfGbonhGjG"]⟩,
    ⟨["xids", "xidstart"],
      ["cNbAGbAbVBKBEBFXBbFBrQEMOFHBBBeZFBCDDBBGBBDBBBUBdFBfJIgKBbMCBGbPcTbBEEbTbRbJCBdVBBPCHCKD",
       "CBQBBbEbDdLLBYbHJCEBFWEBJBDBXZHLFYBGRbQcGcCDBSBHKPQEICCCWBHBBDEDBQBNCBDOCKBIGECCWBHBCBCB",
       "CbFEBBTDQJBDBWBHBCBFDBSBPCXBLICCCWBHBCBFDBbECBDPBRBBGDDBEDCBBBCDCDDDMWBcAIBDBXBQDBbADCBC",
       "CbEBEIBDBXBKBFDBbFCBCPCRJBDBbPCBQBFDIDYGFSDYBJBBCHcGbWBBNHcGCBBBFBYBBBKBBKBCFBBVEbGBcLIB",
       "bKbBFeLbRUBQGEEDBDCHDENMBRbMBBFBCbRBmVBECHBBBECbPBECbHBECHBBBECPBcFBECcPbLQQdICGDxWCRBbA",
       "FcXDLHSNTOSONBDPcAbJBEBcPdLHbPBBFcSKbFbXbECFLbSEbAcCXJcBdEBdPbVRIcCbENCKbSbAbKbPDKbKCLFb",
       "RCDbPEBGBCDBFhKcMkSCGCbMCGCIBBBBBBBbFCcBBHBBDDBHDECGENFDBHeMBNBQNdXBEBCKBBCGGBBBBBBQCEFF",
       "EBRbPdzBiVGEDCMbMBBFBCcEHBQXJHBHBHBHBHBHBHBHvEDZJHFCFEdIGDBdMBEFbRBdQRbGbWQtSjtOcMbguFcP",
       "bUCkJDQKCUbVQbFCdCbNJCdZCcPCCBBBIVQBDBEBXbDcAObYcKGDBBCLbCKXZbDHbVbCBQFBKKFBbPXDBIUXDBDb",
       "YBBDCCFCBBBYDCLHDMGCGCGJHBHBbRBOGeLbDqnSMXEbXmnCoCCeCbMHMFFBBKBNBFBBBCBCBeEbHfJGiKScMCcC",
       "bOKePBBBDBBBBBBBBeWbKbAGbALcECbFDGCGCGCDbJMBbABTBCBPCObIeTcRcBkHbDDbXbVbGNbEFbMKbECbKEIB",
       "FbQgCSbKEbKEbOIcAMLBPBHBCBLBPBHBCDcAMlZJWKIYGBbQBJcRGCBBbSBCDBCXKXJbFcNTBCKWKbAcScEGCcMB",
       "PEBDBbDbQbDDbDbJIBbCbBcCKWKTNSeGcVcDbZNbZNbKbMbCJXjQbQGCQDcHbDKBIWbQSbUVbBXMcBcFCCBNbTbG",
       "ZbAbKbDBCBIbJDBMbWOEVBBBbJSBZTCcLHBBBEBPBKHbVbMICCCWBHBCBFDBSBMFbEKBBCBBbMBBZBBBbScBSEUD",
       "bEbWUCBBhCbVbPEbKbWUBcHbRNBcTbBbLHhDbSeMcMbFICBCIBCBYPBBBdQICbNQBBBbCBKbOHBVBLbUTBScVhRb",
       "HbFJBbLRBbXbEeIHBCBbMVBZGBCBbGOBmPTPBBNBbIeUBdBbjMdYeHRhOdxKdTPbpGRGZfxRFwLkdDbEcpUvXHbF",
       "RdBRbESbWQEbFVFTqQbTiDcMeYcXFBcONcMCBBbCjcAIbvQbPKnfREBHBCBlFPBbDDCBOEIpGdkUeDFNDJHKiwKd",
       "HBcTBCCBCCCEBMBBBHBcNBECIBHBbCBEBFBBDHBnCCZBZBbFBZBbFBZBbFBZBbFBZBIcsYbFGGkBcKfQbTKHQBmJ",
       "bESbSsQbCiUbECBtBHBEBCBPBhPcHcQHBbuIEBbBBCBBCBBKBEBBBBGBEBBBBBBDBCBBCBBBBBBBBBBCBBCEBHBE",
       "BEBBBKBRFDBFBRgoAclfCbGgdUGiOCinQOlbLPxYdqWuWcfYhhZFgfG"]⟩]

end Reparse
