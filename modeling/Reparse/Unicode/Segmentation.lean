import Reparse.Unicode.NamedSet

/-!
# Text boundaries

The classes of characters by which text is divided into user-perceived characters, words and
sentences.
-/

namespace Reparse

/-- The classes for the boundaries of user-perceived characters. -/
def graphemeBreaks : List NamedSet :=
  [⟨["cr"],
      ["NB"]⟩,
    ⟨["cn", "control"],
      ["AKBCBSdRbHNBcbMBguRBdaQBCCYHbXQdghJBjGMtuAQbzqUEhwXIbtkzLbGdSeYjGfiM"]⟩,
    ⟨["ex", "extend"],
      ["bdOeIkPHkDbTBBBCBCBBcULbWVQBdXHCGCCBEbJBbEbBdNLcGJJBYEBJBDBFbRDcHJbQYBbGcDBBBEIEBDHKCbDB",
       "cGBBBCEIBJBKCbABCCcFBECECCDDBbECDBLCcFBEFBCEBUCWGBBcGBBCBEIBHDKCbEBcHBBBMBJBbOBDBcDBBDFD",
       "BEHCLCbDBcGBCCBBDDBEHCLCbCCcFCBBCEIBJBKCbDBcUBEBCDBBIBdDBCHMIdUBCJLHcVCbBBBBBBcDOBFBCFLB",
       "bKJBdYEBGBCCCZCEDQENBCCGBPBbbBDbkKEbCDbDCbECcMCBHIBCLJBbTDBBeNCbIBeODECJBGDiLCCBcGBBHBBB",
       "BCIGKCBbWbFbXEbWKEDbMJMCbGECGcEBBCDBBFcEICCfWDBNBHEBGBDChQcMuEBhNbHeoCDfLBdSbGvIGeBCbsqE",
       "EBKbGCdCCkMBDBEBZCFBfVCbASNBbMIZLBBbSDbWBCECCCBbKBcPGCCCCMBIBbVBbZBBDCCFCBBbQCIBjEBCBEBb",
       "dzSBbcJQQQoCCxHBiSBfTFcmGDBCFEbODEBgJCwBEcNFmFCdBEcSLbXEeTBcCPbPBCCKDbXECCHBcJDbKFBIcKBM",
       "CcAJBBIECBdRDCEGBCBgBBDIVCcFCBBBBMBJBOHDFcPBCGBBCBBDEDBBOCdHICDBBXBdDBCGBBCBBCBCjBBCEGCB",
       "CbBCdHICBBCeCBBBCIdXBBBCEBFjZJBCjLBKEEBfOECCEBbGKbOGCEIBJGCDbUNBCpQHBGBBdEWCHBCBCeSGDBBC",
       "BHBBcUCDBBBnJCLCcAFFDXBhxTBGPqyYMDDdsAFcHHboIBcLEdDBLCbdaXCgyZbUCXuWFDGIICHbEEfSDcyDcDEb",
       "YIBOBWFBPcaIHBRCHBCBFdWBgEHoLBcJEtOEjUCbcIHeFHebGFbsxyUdSeYjG"]⟩,
    ⟨["l"],
      ["glKdScfoQbD"]⟩,
    ⟨["lf"],
      ["KB"]⟩,
    ⟨["lv"],
      ["cndOBbBBbBBbBBbBBbBBbBBbBBbBBbBBbBBbBBbBBbBBbBBbBBbBBbBBbBBbBBbBBbBBbBBbBBbBBbBBbBBbBBbB",
       "BbBBbBBbBBbBBbBBbBBbBBbBBbBBbBBbBBbBBbBBbBBbBBbBBbBBbBBbBBbBBbBBbBBbBBbBBbBBbBBbBBbBBbBB",
       "bBBbBBbBBbBBbBBbBBbBBbBBbBBbBBbBBbBBbBBbBBbBBbBBbBBbBBbBBbBBbBBbBBbBBbBBbBBbBBbBBbBBbBBb",
       "BBbBBbBBbBBbBBbBBbBBbBBbBBbBBbBBbBBbBBbBBbBBbBBbBBbBBbBBbBBbBBbBBbBBbBBbBBbBBbBBbBBbBBbB",
       "BbBBbBBbBBbBBbBBbBBbBBbBBbBBbBBbBBbBBbBBbBBbBBbBBbBBbBBbBBbBBbBBbBBbBBbBBbBBbBBbBBbBBbBB",
       "bBBbBBbBBbBBbBBbBBbBBbBBbBBbBBbBBbBBbBBbBBbBBbBBbBBbBBbBBbBBbBBbBBbBBbBBbBBbBBbBBbBBbBBb",
       "BBbBBbBBbBBbBBbBBbBBbBBbBBbBBbBBbBBbBBbBBbBBbBBbBBbBBbBBbBBbBBbBBbBBbBBbBBbBBbBBbBBbBBbB",
       "BbBBbBBbBBbBBbBBbBBbBBbBBbBBbBBbBBbBBbBBbBBbBBbBBbBBbBBbBBbBBbBBbBBbBBbBBbBBbBBbBBbBBbBB",
       "bBBbBBbBBbBBbBBbBBbBBbBBbBBbBBbBBbBBbBBbBBbBBbBBbBBbBBbBBbBBbBBbBBbBBbBBbBBbBBbBBbBBbBBb",
       "BBbBBbBBbBBbBBbBBbBBbBBbBBbBBbBBbBBbBBbBBbBBbBBbBBbBBbBBbBBbBBbBBbBBbBBbBBbBBbBBbBBbBBbB",
       "BbBBbBBbBBbBBbBBbBBbBBbBBbBBbBBbBBbBBbBBbBBbBBbBBbBBbBBbBBbBBbBBbBBbBBbBBbBBbBBbBBbBBbBB",
       "bBBbBBbBBbBBbBBbBBbBBbBBbBBbBBbBBbBBbBBbBBbBBbBBbBBbBBbBBbBBbBBbBBbBBbBBbBBbBBbBBbBBbBBb",
       "BBbBBbBBbBBbBBbBBbBBbBBbBBbBBbBBbBBbBBbBBbBBbBBbBBbBBbBBbBBbBBbBBbBBbBBbBBbBBbBBbBBbBBbB",
       "BbBBbBBbBBbBBbBBbBBbBBbBBbBBbBBbBBbBBbBBbBBbBBbBBbBBbBB"]⟩,
    ⟨["lvt"],
      ["cndPbBBbBBbBBbBBbBBbBBbBBbBBbBBbBBbBBbBBbBBbBBbBBbBBbBBbBBbBBbBBbBBbBBbBBbBBbBBbBBbBBbBB",
       "bBBbBBbBBbBBbBBbBBbBBbBBbBBbBBbBBbBBbBBbBBbBBbBBbBBbBBbBBbBBbBBbBBbBBbBBbBBbBBbBBbBBbBBb",
       "BBbBBbBBbBBbBBbBBbBBbBBbBBbBBbBBbBBbBBbBBbBBbBBbBBbBBbBBbBBbBBbBBbBBbBBbBBbBBbBBbBBbBBbB",
       "BbBBbBBbBBbBBbBBbBBbBBbBBbBBbBBbBBbBBbBBbBBbBBbBBbBBbBBbBBbBBbBBbBBbBBbBBbBBbBBbBBbBBbBB",
       "bBBbBBbBBbBBbBBbBBbBBbBBbBBbBBbBBbBBbBBbBBbBBbBBbBBbBBbBBbBBbBBbBBbBBbBBbBBbBBbBBbBBbBBb",
       "BBbBBbBBbBBbBBbBBbBBbBBbBBbBBbBBbBBbBBbBBbBBbBBbBBbBBbBBbBBbBBbBBbBBbBBbBBbBBbBBbBBbBBbB",
       "BbBBbBBbBBbBBbBBbBBbBBbBBbBBbBBbBBbBBbBBbBBbBBbBBbBBbBBbBBbBBbBBbBBbBBbBBbBBbBBbBBbBBbBB",
       "bBBbBBbBBbBBbBBbBBbBBbBBbBBbBBbBBbBBbBBbBBbBBbBBbBBbBBbBBbBBbBBbBBbBBbBBbBBbBBbBBbBBbBBb",
       "BBbBBbBBbBBbBBbBBbBBbBBbBBbBBbBBbBBbBBbBBbBBbBBbBBbBBbBBbBBbBBbBBbBBbBBbBBbBBbBBbBBbBBbB",
       "BbBBbBBbBBbBBbBBbBBbBBbBBbBBbBBbBBbBBbBBbBBbBBbBBbBBbBBbBBbBBbBBbBBbBBbBBbBBbBBbBBbBBbBB",
       "bBBbBBbBBbBBbBBbBBbBBbBBbBBbBBbBBbBBbBBbBBbBBbBBbBBbBBbBBbBBbBBbBBbBBbBBbBBbBBbBBbBBbBBb",
       "BBbBBbBBbBBbBBbBBbBBbBBbBBbBBbBBbBBbBBbBBbBBbBBbBBbBBbBBbBBbBBbBBbBBbBBbBBbBBbBBbBBbBBbB",
       "BbBBbBBbBBbBBbBBbBBbBBbBBbBBbBBbBBbBBbBBbBBbBBbBBbBBbBBbBBbBBbBBbBBbBBbBBbBBbBBbBBbBBbBB",
       "bBBbBBbBBbBBbBBbBBbBBbBBbBBbBBbBBbBBbBBbBBbBBbBBbBBbBBbB"]⟩,
    ⟨["pp", "prepend"],
      ["chCGiHBbXBoUCdCBbrNBdugKBPBjKCuFBcbLBBBmKGbaYBrBB"]⟩,
    ⟨["ri", "regionalindicator"],
      ["hgoKbA"]⟩,
    ⟨["sm", "spacingmark"],
      ["dkTBcDBCDIEBCbYCcHCGCCCcCBcGDcOBcGDIBBCcBCcIBGCCCeKBBCDDBDcADcJEcJCcGBCBBCbUBOCcHCFDBDcB",
       "CcYCGHTCcLBeXBfICcLBgVBJCZCbSBcsVBHIBCnIECDECBGiQCcGBBBVGfPBcFEcMBbEBECcLBCDBBcBIICgPBVB",
       "casHCCBdKCbYQfMBbWBbWCECCCeHCCCYBgBBCCFBjDCBCBCBBblxJBBBeXBbTDECeLBYCcHBbWDJBOBdPDDCgQDb",
       "FCcHBBECCCCVCdHCPBBCdZDICDBeDCGBBCBBCBjECGECBeJDICBBeFBBCeGBHBkBDJBjOFBCHBBBfMDIEEBdGBbD",
       "CcKBpRBOBeCBHBCBiFFECBBnMCMBbWCICyzADfjGcD"]⟩,
    ⟨["t"],
      ["grWdKcwxNbX"]⟩,
    ⟨["v"],
      ["gpCcUcwzWXcerCBDE"]⟩,
    ⟨["zwj"],
      ["mdPB"]⟩]

/-- The classes for the boundaries of words. -/
def wordBreaks : List NamedSet :=
  [⟨["le", "aletter"],
      ["cNbAGbAbVBKBEBFXBbFBsMGbIeIFBCCEBBGBBDBBBUBdFBfJIgKBbMCEBBBbPBBeABbSbRbJCBdVBBPCHCKDCBQB",
       "BbEbDdLLBYbHJCEBFWEBJBDBXZHLFYBGRbQcGcCDBSBHKPQEICCCWBHBBDEDBQBNCBDOCKBIGECCWBHBCBCBCbFE",
       "BBTDQJBDBWBHBCBFDBSBPCXBLICCCWBHBCBFDBbECBDPBRBBGDDBEDCBBBCDCDDDMWBcAIBDBXBQDBbADCBCCbEB",
       "EIBDBXBKBFDBbFCBCPCRJBDBbPCBQBFDIDYGFSDYBJBBCHmBBcLIBbKbBFkPbMBBFBCbRBmVBECHBBBECbPBECbH",
       "BECHBBBECPBcFBECcPbLQQdICGDxWCRBbAFcXDLHSNTOSONBDgTdLHFCbIBBFcSKbFiRXjEbVRIcCbENCKbSbAbK",
       "bPDKbKCLFbRCDbPEBGBCDBFhKcMkSCGCbMCGCIBBBBBBBbFCcBBHBBDDBHDECGENFDBHeMBNBQNdXBEBCKBBDFGB",
       "BBBBBEBLCEFFEBRbPbfHcAcrUiVGEDCMbMBBFBCcEHBQXJHBHBHBHBHBHBHBHdCBsBBcBChSbRBdQRbGbptObsVc",
       "PbUCkJDQKCUbVQbFCdCYhQCCBBBIVQBDBEBXbDcAObYcKGDBBCLbCKXZbDHbVbCBbWbPXDBIfSLHDMGCGCGJHBHB",
       "cGGeLbDqnSMXEbXngUHMFcEdUbHnZScMCcCbOMeMFBfFbKbAGbAcRbFDGCGCGCDbJMBbABTBCBPCObIeTcRcBkHb",
       "DDbXbVbGNbEFbMKbECbKEIBFbQgCSbKEbKEbOIcAMLBPBHBCBLBPBHBCDcAMlZJWKIYGBbQBJcRGCBBbSBCDBCXK",
       "XJbFcNTBCKWKbAcScEGCcMBPEBDBbDbQbDDbDbJIBbCbBcCKWKTNSeGcVcDbZNbZNbKbMbCJXjQbQGCQDcHbDKBI",
       "WbQSbUVbBXMcBcFCCBNbTbGZbAbKbDBCBIbJDBMbWOEVBBBbJSBZTCcLHBBBEBPBKHbVbMICCCWBHBCBFDBSBMFb",
       "EKBBCBBbMBBZBBBbScBSEUDbEbWUCBBhCbVbPEbKbWUBcHbRNBmPbSeMcMbFICBCIBCBYPBBBdQICbNQBBBbCBKb",
       "OHBVBLbUTBScVhRbHbFJBbLRBbXbEeIHBCBbMVBZGBCBbGOBmPTPBBNBbIeUBdBbjMdYeHRhOdxKdTPbpGRGZfxR",
       "FwLkdDbEcpUvXHbFRdBRbESbWQEbFVFTqQbTiDcMeYcXFBcONcMCBBbcvKeDFNDJHKiwKdHBcTBCCBCCCEBMBBBH",
       "BcNBECIBHBbCBEBFBBDHBnCCZBZBbFBZBbFBZBbFBZBbFBZBIcsYbFGGkBcKfQbTKHQBmJbESbSsQbCiUbECBtBH",
       "BEBCBPBhPcHcQHBbuIEBbBBCBBCBBKBEBBBBGBEBBBBBBDBCBBCBBBBBBBBBBCBBCEBHBEBEBBBKBRFDBFBRyEbA",
       "GbAGbA"]⟩,
    ⟨["cr"],
      ["NB"]⟩,
    ⟨["dq", "doublequote"],
      ["bIB"]⟩,
    ⟨["extend"],
      ["bdOeIkPHkDbTBBBCBCBBcULbWVQBdXHCGCCBEbJBbEbBdNLcGJJBYEBJBDBFbRDcHJbQYBbHcCDBSBHKCbDDcEBB",
       "HCCCDJBKCbABCDcEBBFECCDDBbECDBLDcEBBIBDBDUCWGBDcEBBHCCCDHDKCbEBcHFDDBEJBbOFcDBBHBDBEHCLC",
       "bDDcEBBHBDBEHCLCPBMEcDCBHBDBEJBKCbDDcSBEGBBBISCcJBCHMIdUBCJLHcVCbBBBBBBECbXUBCFLBbKJBdWU",
       "XEEDBDCHDENMBBKEbbBDbkKEbCDbDCbECcMbGJBbTDBBeNCbIBeOMEMiLFcFKBbDCBbWbFbXFbVRbMJMDbENcEOb",
       "WUfWDBVEBGBCDhQcMuEBhNbHeoCDfLBdSbGvIGeBCbsqEEBKbGCdCCkMBDBEBXFEBdFCbYSbASNBbMIZNbSEbVOb",
       "KBcPOMBICbTDbYBBDCCFCBBbPFFCjCIBCbdzSBbcJQQQoCCxHBiSBfTFcmGDBCFEbODEBgJCwBEcNFmFCdBEcSLb",
       "XEeSDcBPbPBCCKEbTLHBcJDbKOQCbSBMDbWOIEBCdOMGBCBgBMVEcDCBHCCCDJBKCCHDFcPJBBCBBEBFBBOCdESX",
       "BdDUjBHCJbBCdEReCNdXPjWPjLGBCCEBBBCfLHCHDBbCKbOHBEIBJLbUQpPIBIdEWBOeSGDBBCBHBBcOFBCBFnJE",
       "JCBBbWHDFXBhxTBGPqyYSdsAFcHHboIBBcDHEdDBLCbdaXCgyZbUCXuWFDGIICHbEEfSDcyDcDEbYIBOBWFBPcaI",
       "HBRCHBCBFdWBgEHoLBcJEtOEjUCbcIHeFHebGFbsxyUdSeYjG"]⟩,
    ⟨["ex", "extendnumlet"],
      ["dRBmbFBPCTBdgaOCYDjFB"]⟩,
    ⟨["fo", "format"],
      ["gRBcaKGWBhKBbXBoUCdCBftJBdaTCbAFbXFBKdghJBjPDgiZBPBnkKQbzqUEhwXIbtkzMB"]⟩,
    ⟨["hl", "hebrewletter"],
      ["cfGbBEEdovYBBKBNBFBBBCBCBK"]⟩,
    ⟨["ka", "katakana"],
      ["sgNFdXCDdNBEjGQiAbVBdKczhEcEcouCEBHBCBBlBDbYBOE"]⟩,
    ⟨["lf"],
      ["KB"]⟩,
    ⟨["ml", "midletter"],
      ["cGBeUBbbRBsDBfSBjxYBdgbBBcNBhOB"]⟩,
    ⟨["mn", "midnum"],
      ["bSBOBbgCBuCBfACdQBpFBjfFBdfzVBDBcHBDBhBBOB"]⟩,
    ⟨["mb", "midnumlet"],
      ["bUBmcFCKBdgdPBgYBGB"]⟩,
    ⟨["nl", "newline"],
      ["LCeQBlzMC"]⟩,
    ⟨["nu", "numeric"],
      ["bWKciOKBBfCKhQKpWKeOKeOKeOKeOKeOKeOKeOKeOKeOKdSKeOKcSKkSKcSKctQKbMKlOKeYKgKKGKhAKdIKfEKG",
       "KcaeOKbaCKbMKhQKWKdIKpQKbfmCKccKKdfYKGKbeQKeYKcIKfOKkSKnEKeOKoKKdYKGUcYKqGKdYKzMKdIKjMKc",
       "SKqGKyyGKdmCKdIKfEKuOKbkdYKecQbYdnCKqGKtIKjNKbgVKhbAK"]⟩,
    ⟨["ri", "regionalindicator"],
      ["hgoKbA"]⟩,
    ⟨["sq", "singlequote"],
      ["bNB"]⟩,
    ⟨["wsegspace"],
      ["bGBimHBdpNHBDdGBfxWB"]⟩,
    ⟨["zwj"],
      ["mdPB"]⟩]

/-- The classes for the boundaries of sentences. -/
def sentenceBreaks : List NamedSet :=
  [⟨["at", "aterm"],
      ["bUBmcRBdgdPBhFB"]⟩,
    ⟨["cr"],
      ["NB"]⟩,
    ⟨["cl", "close"],
      ["bIBEDbXBBBbDBBBbTBPBfmSEcuNCdpJIZCKCcCCOCyJEbDCbpGGHOdBCbFKpNWcLEbGCbnMOOCCKYBSIqLKCIBDc",
       "zrQCiHCbCQCCQGgNCbXBBBbDBBBBCBCdpoSD"]⟩,
    ⟨["ex", "extend"],
      ["bdOeIkPHkDbTBBBCBCBBcULbWVQBdXHCGCCBEbJBbEbBdNLcGJJBYEBJBDBFbRDcHJbQYBbHcCDBSBHKCbDDcEBB",
       "HCCCDJBKCbABCDcEBBFECCDDBbECDBLDcEBBIBDBDUCWGBDcEBBHCCCDHDKCbEBcHFDDBEJBbOFcDBBHBDBEHCLC",
       "bDDcEBBHBDBEHCLCPBMEcDCBHBDBEJBKCbDDcSBEGBBBISCcJBCHMIdUBCJLHcVCbBBBBBBECbXUBCFLBbKJBdWU",
       "XEEDBDCHDENMBBKEbbBDbkKEbCDbDCbECcMbGJBbTDBBeNCbIBeOMEMiLFcFKBbDCBbWbFbXFbVRbMJMDbENcEOb",
       "WUfWDBVEBGBCDhQcMuEChMbHeoCDfLBdSbGvIGeBCbsqEEBKbGCdCCkMBDBEBXFEBdFCbYSbASNBbMIZNbSEbVOb",
       "KBcPOMBICbTDbYBBDCCFCBBbPFFCjCIBCbdzSBbcJQQQoCCxHBiSBfTFcmGDBCFEbODEBgJCwBEcNFmFCdBEcSLb",
       "XEeSDcBPbPBCCKEbTLHBcJDbKOQCbSBMDbWOIEBCdOMGBCBgBMVEcDCBHCCCDJBKCCHDFcPJBBCBBEBFBBOCdESX",
       "BdDUjBHCJbBCdEReCNdXPjWPjLGBCCEBBBCfLHCHDBbCKbOHBEIBJLbUQpPIBIdEWBOeSGDBBCBHBBcOFBCBFnJE",
       "JCBBbWHDFXBhxTBGPqyYSdsAFcHHboIBBcDHEdDBLCbdaXCgyZbUCXuWFDGIICHbEEfSDcyDcDEbYIBOBWFBPcaI",
       "HBRCHBCBFdWBgEHoLBcJEtOEjUCbcIHeFHbtcaFdSeYjG"]⟩,
    ⟨["fo", "format"],
      ["gRBcaKGWBhKBbXBoUCdCBftJBdaQBCCbAFbXFBKdghJBjPDgiZBPBnkKQbzqUEhwXIbtkzMB"]⟩,
    ⟨["lf"],
      ["KB"]⟩,
    ⟨["lo", "lower"],
      ["dTbAbVBKBEBbKYBIBBBBBBBBBBBBBBBBBBBBBBBBBBBBBBBBBBBBBBBBBBBBBBBBBBBBBBBCBBBBBBBBBBBBBBBC",
       "BBBBBBBBBBBBBBBBBBBBBBBBBBBBBBBBBBBBBBBBBBBBBBCBBBBDCBBBCBDCEBCBDDCBCBBBBBCBBCBBCBDBBBCC",
       "CDGBCBCBBBBBBBBBBBBBBBBCBBBBBBBBBBBBBBBBBCCBBBDBBBBBBBBBBBBBBBBBBBBBBBBBBBBBBBBBBBBBBBBB",
       "BBBBBBBBBBBBBBBBBHCBCCBBEBBBBBBBBcRBbKHCbEFfKBBBDBCESBbBbJBCDDBBBBBBBBBBBBBBBBBBBBBBBFBB",
       "CBCCbZbWBBBBBBBBBBBBBBBBBBBBBBBBBBBBBBBBBBJBBBBBBBBBBBBBBBBBBBBBBBBBBBBBBBBBBBBBBBBBBBBB",
       "BBBBBBBBCBBBBBBBBBBBBCBBBBBBBBBBBBBBBBBBBBBBBBBBBBBBBBBBBBBBBBBBBBBBBBBBBBBBBBBBBBBBBBBB",
       "BBBBBBBBBBBBBBBBBBBBBBBBBBBBBBbWbPeiTBbdJGdfUJBBeNhKcNBBBBBBBBBBBBBBBBBBBBBBBBBBBBBBBBBB",
       "BBBBBBBBBBBBBBBBBBBBBBBBBBBBBBBBBBBBBBBBBBBBBBBBBBBBBBBBBBBBBBBBBBBBBBBBBBBBBBBBBBBBBBBB",
       "BBBBBBBBBBBBBBBBBBBBBBBBBBJBBBBBBBBBBBBBBBBBBBBBBBBBBBBBBBBBBBBBBBBBBBBBBBBBBBBBBBBBBBBB",
       "BBBBBBBBBBBBBBBBBBBBBBBBBBBBBBBBBBBBJIGKIIIIGKIIIIOCIIIIIIFBCGBDDBCIECCIIKDBCeRBNBQNeFBD",
       "CDBbBBEBEBCCIEEBbHQEBbgLbActQbWBBDCBBBBBBEBBCBIDBBBBBBBBBBBBBBBBBBBBBBBBBBBBBBBBBBBBBBBB",
       "BBBBBBBBBBBBBBBBBBBBBBBBBBBBBBBBBBBBBBBBBBBBBBBBBBBBBBBBBBCHBBBEBMbMBBFBbtwDBBBBBBBBBBBB",
       "BBBBBBBBBBBBBBBBBBBBBBBBBBBBBBBBBTBBBBBBBBBBBBBBBBBBBBBBBBBBDfDBBBBBBBBBBBBDBBBBBBBBBBBB",
       "BBBBBBBBBBBBBBBBBBBBBBBBBBBBBBBBBBBBBBBBBBBBBBBBBKBBBBCBBBBBBBBBEBBBCBBDBBBBBBBBBBBBBBBB",
       "BBBBFBFBBBBBBBBBBBBBBBEBBBCBDBBBBBBBBBBBWDBBBDbfPbRBOGdCbeaIHMFboZbAbvHbOfGbKfZLBPBHBCrJ",
       "BCDBbQBJbxLbZeVWegObGbgjWbGbmmKbAbAHBSbAbAbAEBBBHBLbAbAbAbAbAbAbAbAbAbAbAbAbAbAbAbAbAbCb",
       "CZBGbAZBGbAZBGbAZBGbAZBGBBcsYKBUGGkBcKdhSbI"]⟩,
    ⟨["nu", "numeric"],
      ["bWKciOKBCfBKhQKpWKeOKeOKeOKeOKeOKeOKeOKeOKeOKdSKeOKcSKkSKcSKctQKbMKlOKeYKgKKGKhAKdIKfEKG",
       "KcaeOKbaCKbMKhQKWKdIKpQKbfmCKccKKdfYKGKbeQKeYKcIKfOKkSKnEKeOKoKKdYKGUcYKqGKdYKzMKdIKjMKc",
       "SKqGKyyGKdmCKdIKfEKuOKbkdYKecQbYdnCKqGKtIKjNKbgVKhbAK"]⟩,
    ⟨["le", "oletter"],
      ["rBBEEiABbKHGMbABBBfDBsQBeObBEFbSbRbJCBdVBBPCHCKDCBQBBbEbDdLLBYbHJCEBFWEBJBDBXZHLFYBGRbQc",
       "GcCDBSBHKPQEICCCWBHBBDEDBQBNCBDOCKBIGECCWBHBCBCBCbFEBBTDQJBDBWBHBCBFDBSBPCXBLICCCWBHBCBF",
       "DBbECBDPBRBBGDDBEDCBBBCDCDDDMWBcAIBDBXBQDBbADCBCCbEBEIBDBXBKBFDBbFCBCPCRJBDBbPCBQBFDIDYG",
       "FSDYBJBBCHcGbWBCMHcGCBBBFBYBBBKBCJBCFBBVEbGBcLIBbKbBFeLbRUBQGEEDBDCHDENMBcNbRCmUBECHBBBE",
       "CbPBECbHBECHBBBECPBcFBECcPbLQeJxWCRBbAFcXDLHSNTOSONBDPcAbJBEBcPdLHFCbIBBFcSKbFbXbECFLbSE",
       "bAcCXJcBdEBdPbVRIcCbENCKbSbAbKbPDKbKSbRCDbPEBGBCDBbpQEcTDCEekTcEHBQXJHBHBHBHBHBHBHBHdCBs",
       "BDZJHFCFEdIGDBdMBEFbRBdQRbGbWQtSjtOcMbguFcPbUCkJDQKCcOBQBbGdCbNJeABGBdZBDHBDBEBXbDcAObYc",
       "KGDBBCLbCKXZbDHbVbCBQFBKKFBbPXDBIUXDBDbYBBDCCFCBBBYDCLHDMGCGCGJHBHfPbJbDqnSMXEbXmnCoCCeC",
       "cPBBKBNBFBBBCBCBeEbHnZScMCcCbOMeMFBfFeBcECbFDGCGCGCDbJMBbABTBCBPCObIeTcRcBkHbDDbXbVbGNbE",
       "FbMKbECbKEIBFeSdAdUbOIcAdOcAMlZJWKIZCeVGCBBbSBCDBCXKXJbFcNTBCKWKbAcScEGCcMBPEBDBbDbQbDDb",
       "DbJIBbCbBcCKWKTNSeGcVhBbKbMGbFBkMbQGCQDcHbDKBIWbQSbUVbBXMcBcFCCBNbTbGZbAbKbDBCBIbJDBMbWO",
       "EVBBBbJSBZTCcLHBBBEBPBKHbVbMICCCWBHBCBFDBSBMFbEKBBCBBbMBBZBBBbScBSEUDbEbWUCBBhCbVbPEbKbW",
       "UBcHbRNBcTbBbLHhDbSiDICBCIBCBYPBBBdQICbNQBBBbCBKbOHBVBLbUTBScVhRbHbFJBbLRBbXbEeIHBCBbMVB",
       "ZGBCBbGOBmPTPBBNBbIeUBdBbjMdYeHRhOdxKdTPbpGRGZfxRFwLkdDbEcpUvXHbFRdBRbESbWQEbFVFTqQbTpNc",
       "XFBcONcMCBBbCjcAIbvQbPKnfREBHBCBlFPBbDDCBOEIpGdkUeDFNDJHKnbCBtHbTKHQBmJbESbSsQbCiUbECBtB",
       "HBEBCBPBhPfEBbuIEBbBBCBBCBBKBEBBBBGBEBBBBBBDBCBBCBBBBBBBBBBCBBCEBHBEBEBBBKBRFDBFBRgoAclf",
       "CbGgdUGiOCinQOlbLPxYdqWuWcfYhhZFgfG"]⟩,
    ⟨["sc", "scontinue"],
      ["bSCMBbyOBgSCsWBgbXBFBdbECgaUBdaaWCBBbDCbDCDBCBKBgMCMBcVB"]⟩,
    ⟨["st", "sterm"],
      ["bHBbDBcaBBfRDgYBbRDjMBcJBBBDClHCcpWCbeKBECbdTBhQCgBCbTBFBmCCnQEgGCKCCCbDDhFCcNCbkUCJDeuX",
       "DlUBNBWCqNBbshWBkKCiTBDBoSCdICdRBfWCfRDfOCjPBbfcWBCCcLCgNBbDBcNBedWCbxDFbSEhHCeNEeXDeZCG",
       "BQCdKCBCeEBlMCeNCoJCFPeBCjPDtXBBBjRCdJCqECbaQCcWCbcmBCfDBcNCLBvHClKBbdoGBliMB"]⟩,
    ⟨["se", "sep"],
      ["fDBlzMC"]⟩,
    ⟨["sp"],
      ["JBBCTBeXBihJBdpNLbKBbVBfxWB"]⟩,
    ⟨["up", "upper"],
      ["cNbAdXXBHbHBBBBBBBBBBBBBBBBBBBBBBBBBBBBBBBBBBBBBBBBBBBBBBBBBBBBBBBCBBBBBBBBBBBBBBBCBBBBB",
       "BBBBBBBBBBBBBBBBBBBBBBBBBBBBBBBBBBBBBBBBBCBBBBDCBBBCBDCEBCBDDCBCBBBBBCBBCBBCBDBBBCDBHCBC",
       "BCBBBBBBBBBBBBBBBBCBBBBBBBBBBBBBBBBBCCBBBDBBBBBBBBBBBBBBBBBBBBBBBBBBBBBBBBBBBBBBBBBBBBBB",
       "BBBBBBBBBBBBHCBCCBBEBBBBBBBBlDBBBDBIBGBBDBBBCBRBJbJBCDDBBBBBBBBBBBBBBBBBBBBBBBFBCBBCCbZb",
       "WBBBBBBBBBBBBBBBBBBBBBBBBBBBBBBBBBJBBBBBBBBBBBBBBBBBBBBBBBBBBBBBBBBBBBBBBBBBBBBBBBBBBBBB",
       "BCBBBBBBBBBBBBCBBBBBBBBBBBBBBBBBBBBBBBBBBBBBBBBBBBBBBBBBBBBBBBBBBBBBBBBBBBBBBBBBBBBBBBBB",
       "BBBBBBBBBBBBBBBBBBBBBBCbMehDbMBBFBbbUdIdgLBoKBBBBBBBBBBBBBBBBBBBBBBBBBBBBBBBBBBBBBBBBBBB",
       "BBBBBBBBBBBBBBBBBBBBBBBBBBBBBBBBBBBBBBBBBBBBBBBBBBBBBBBBBBBBBBBBBBBBBBBBBBBBBBBBBBBBBBBB",
       "BBBBBBBBBBBBBBBBBBJBBBBBBBBBBBBBBBBBBBBBBBBBBBBBBBBBBBBBBBBBBBBBBBBBBBBBBBBBBBBBBBBBBBBB",
       "BBBBBBBBBBBBBBBBBBBBBBBBBBBBJIIGKIIIIGLBBBBBBBIIYIIIIIIFLFLEMFLFkBBEBDDCDCBDFGBBBBBBECEK",
       "CFBbAQTBbfMbAcsUbWbWBBDCBBBBBBEBBCBIDBBBBBBBBBBBBBBBBBBBBBBBBBBBBBBBBBBBBBBBBBBBBBBBBBBB",
       "BBBBBBBBBBBBBBBBBBBBBBBBBBBBBBBBBBBBBBBBBBBBBBBIBBBEBbtyJBBBBBBBBBBBBBBBBBBBBBBBBBBBBBBB",
       "BBBBBBBBBBBBBBTBBBBBBBBBBBBBBBBBBBBBBBBBBBfFBBBBBBBBBBBBBDBBBBBBBBBBBBBBBBBBBBBBBBBBBBBB",
       "BBBBBBBBBBBBBBBBBBBBBBBBBBBBBBBKBBBBCBBBBBBBBEBBBCBBBDBBBBBBBBBBBBBBBBBBBBFBFBBBBBBBBBBB",
       "BBBBEBBBCDBFBBBBBBBYBbhaHbAbuZbOfGbKgALBPBHBCcqCbZgBWegObGbgjWbGbmmQbAbAbAbAbAbABBCCBCCC",
       "EBIbAbAbACBECIBHbBCBEBFBBDHbBbAbAbAbAbAbAbAbAbAbAbAbEZbHZbHZbHZbHZbHBgnLbIdbIbAGbAGbA"]⟩]

end Reparse
